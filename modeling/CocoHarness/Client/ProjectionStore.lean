/-
# CocoHarness.Client.ProjectionStore — finished projection values of one session.

A push frame carries the value of one key at a seq, a baseline the values of all keys at a cut.  Both
follow one rule, higher seq wins; a key the baseline omits is cleared unless a later row stands.  Seen
from one key the store is a register under dated statements (`lookup_receive`), so frames and baselines
of one host run converge for exactly the sets in which no key is omitted at a cut that none of its
values outlives (`receiveAll_converges_iff`): clearing forgets the seq it happened at.
-/
import CocoHarness.Lib.InsertionMap
import CocoHarness.Lib.Register

namespace CocoHarness.Client

open Lib List Register InsertionMap

variable {κ α : Type} [DecidableEq κ]

structure ProjectionsBaseline (κ α : Type) where
  /-- The consistent-cut seq. -/
  asOfSeq : Int
  /-- Whole current values by key; a key absent here is capability-absent. -/
  values : InsertionMap κ α

structure ProjectionValueStore (κ α : Type) where
  rows : InsertionMap κ (Register.Row α) := ∅

namespace ProjectionValueStore

variable (store : ProjectionValueStore κ α)

def get (key : κ) : Option α := (store.rows.lookup key).map Register.Row.value

def apply (key : κ) (value : α) (seq : Int) : ProjectionValueStore κ α :=
  match store.rows.lookup key with
  | some row => if seq ≤ row.seq then store else { rows := store.rows.set key { value, seq } }
  | none => { rows := store.rows.set key { value, seq } }

/-- The second loop of `seed`: rows the baseline omits, unless newer than the cut. -/
def clearOmitted (baseline : ProjectionsBaseline κ α) (store : ProjectionValueStore κ α)
    (entry : κ × Register.Row α) : ProjectionValueStore κ α :=
  if baseline.values.lookup entry.1 ≠ none then store
  else if baseline.asOfSeq < entry.2.seq then store
  else { rows := store.rows.erase entry.1 }

def seed (baseline : ProjectionsBaseline κ α) : ProjectionValueStore κ α :=
  let store := baseline.values.entries.foldl
    (fun store entry => store.apply entry.1 entry.2 baseline.asOfSeq) store
  store.rows.entries.foldl (clearOmitted baseline) store

def truncate (lastSeq : Int) : ProjectionValueStore κ α :=
  store.rows.entries.foldl
    (fun store entry => if entry.2.seq ≤ lastSeq then store else { rows := store.rows.erase entry.1 }) store

end ProjectionValueStore

inductive ProjectionItem (κ α : Type) where
  | frame (key : κ) (value : α) (seq : Int)
  | baseline (block : ProjectionsBaseline κ α)

namespace ProjectionValueStore

def receive (store : ProjectionValueStore κ α) : ProjectionItem κ α → ProjectionValueStore κ α
  | .frame key value seq => store.apply key value seq
  | .baseline block => store.seed block

def receiveAll (items : List (ProjectionItem κ α)) : ProjectionValueStore κ α := items.foldl receive {}

end ProjectionValueStore

/-! ## One key -/

def ProjectionItem.tells (key : κ) : ProjectionItem κ α → Option (Register.Statement α)
  | .frame k value seq => if k = key then some (seq, some value) else none
  | .baseline block => some (block.asOfSeq, block.values.lookup key)

namespace ProjectionValueStore

variable (store : ProjectionValueStore κ α)

theorem lookup_apply (key k : κ) (value : α) (seq : Int) : (store.apply k value seq).rows.lookup key =
      if k = key then settle (store.rows.lookup key) (seq, some value)
      else store.rows.lookup key := by
  unfold apply
  split
  · next row hrow =>
    by_cases heq : k = key
    · subst heq
      rw [if_pos rfl, hrow]
      simp only [settle]
      split
      · exact hrow
      · rw [lookup_set, if_pos rfl]
    · rw [if_neg heq]
      split
      · rfl
      · rw [lookup_set, if_neg (Ne.symm heq)]
  · next hrow =>
    by_cases heq : k = key
    · subst heq
      rw [if_pos rfl, hrow, lookup_set, if_pos rfl]
      rfl
    · rw [if_neg heq, lookup_set, if_neg (Ne.symm heq)]

variable (key : κ)

theorem lookup_foldl_apply (cut : Int) (entries : List (κ × α)) (hnodup : (entries.map Prod.fst).Nodup) :
    (entries.foldl (fun store entry => store.apply entry.1 entry.2 cut) store).rows.lookup key =
      match entries.lookup key with
      | some value => settle (store.rows.lookup key) (cut, some value)
      | none => store.rows.lookup key := by
  induction entries generalizing store with
  | nil => rfl
  | cons entry rest ih =>
    obtain ⟨hfresh, hrest⟩ := nodup_cons.mp hnodup
    rw [foldl_cons, ih _ hrest, lookup_apply, lookup_cons]
    by_cases heq : entry.1 = key
    · have hnone : rest.lookup key = none := by
        apply lookup_eq_none_iff.mpr
        intro pair hpair
        have hne : key ≠ pair.1 := fun hk => hfresh (heq ▸ hk ▸ mem_map_of_mem hpair)
        simpa using hne
      simp [hnone, heq]
    · have hne : (key == entry.1) = false := by simpa using Ne.symm heq
      simp [hne, heq]

theorem lookup_clearOmitted (baseline : ProjectionsBaseline κ α) (entry : κ × Row α) :
    (clearOmitted baseline store entry).rows.lookup key =
      if entry.1 = key ∧ baseline.values.lookup key = none ∧ entry.2.seq ≤ baseline.asOfSeq then none
      else store.rows.lookup key := by
  unfold clearOmitted
  by_cases hcarried : baseline.values.lookup entry.1 ≠ none
  · rw [if_pos hcarried, if_neg]
    rintro ⟨rfl, homitted, -⟩
    exact hcarried homitted
  · rw [if_neg hcarried]
    by_cases hnewer : baseline.asOfSeq < entry.2.seq
    · rw [if_pos hnewer, if_neg]
      rintro ⟨-, -, hle⟩
      omega
    · rw [if_neg hnewer, lookup_erase]
      by_cases heq : key = entry.1
      · rw [if_pos heq, if_pos ⟨heq.symm, heq ▸ not_not.mp hcarried, by omega⟩]
      · rw [if_neg heq, if_neg fun h => heq h.1.symm]

open Classical in
theorem lookup_foldl_clearOmitted (baseline : ProjectionsBaseline κ α) (entries : List (κ × Row α)) :
    (entries.foldl (clearOmitted baseline) store).rows.lookup key =
      if baseline.values.lookup key = none ∧ ∃ row, (key, row) ∈ entries ∧ row.seq ≤ baseline.asOfSeq then none
      else store.rows.lookup key := by
  induction entries generalizing store with
  | nil => simp
  | cons entry rest ih =>
    rw [foldl_cons, ih, lookup_clearOmitted]
    by_cases homitted : baseline.values.lookup key = none
    · by_cases hrest : ∃ row, (key, row) ∈ rest ∧ row.seq ≤ baseline.asOfSeq
      · obtain ⟨row, hmem, hle⟩ := hrest
        rw [if_pos ⟨homitted, row, hmem, hle⟩, if_pos ⟨homitted, row, mem_cons_of_mem _ hmem, hle⟩]
      · rw [if_neg fun h => hrest h.2]
        by_cases hhead : entry.1 = key ∧ entry.2.seq ≤ baseline.asOfSeq
        · rw [if_pos ⟨hhead.1, homitted, hhead.2⟩, if_pos]
          refine ⟨homitted, entry.2, ?_, hhead.2⟩
          rw [← hhead.1]
          exact mem_cons_self
        · rw [if_neg fun h => hhead ⟨h.1, h.2.2⟩, if_neg]
          rintro ⟨-, row, hmem, hle⟩
          rcases mem_cons.mp hmem with heq | hmem
          · exact hhead ⟨by rw [← heq], by rw [← heq]; exact hle⟩
          · exact hrest ⟨row, hmem, hle⟩
    · rw [if_neg fun h => homitted h.1, if_neg fun h => homitted h.2.1, if_neg fun h => homitted h.1]

/-- **The store, seen from one key**, is a register: an item is a statement about it, or none. -/
theorem lookup_receive (item : ProjectionItem κ α) : (store.receive item).rows.lookup key =
      match item.tells key with
      | some statement => settle (store.rows.lookup key) statement
      | none => store.rows.lookup key := by
  cases item with
  | frame k value seq =>
    show (store.apply k value seq).rows.lookup key = _
    rw [lookup_apply, ProjectionItem.tells]
    split <;> rfl
  | baseline block =>
    show (store.seed block).rows.lookup key = settle _ (block.asOfSeq, block.values.lookup key)
    set store' := block.values.entries.foldl
      (fun store entry => store.apply entry.1 entry.2 block.asOfSeq) store with hstore'
    have hfirst : store'.rows.lookup key =
        match block.values.lookup key with
        | some value => settle (store.rows.lookup key) (block.asOfSeq, some value)
        | none => store.rows.lookup key :=
      lookup_foldl_apply store key block.asOfSeq _ block.values.keys_nodup
    show (store'.rows.entries.foldl (clearOmitted block) store').rows.lookup key = _
    rw [lookup_foldl_clearOmitted]
    cases hcarried : block.values.lookup key with
    | some value => rw [if_neg (fun h => Option.some_ne_none value h.1), hfirst, hcarried]
    | none =>
      -- the first loop left a key alone that the baseline omits
      have hsame : store'.rows.lookup key = store.rows.lookup key := by rw [hfirst, hcarried]
      have hrows : (∃ row, (key, row) ∈ store'.rows.entries ∧ row.seq ≤ block.asOfSeq) ↔
          ∃ row, store.rows.lookup key = some row ∧ row.seq ≤ block.asOfSeq := by
        rw [← hsame]
        constructor
        · rintro ⟨row, hmem, hle⟩
          exact ⟨row, lookup_eq_some_iff.mpr hmem, hle⟩
        · rintro ⟨row, hlookup, hle⟩
          exact ⟨row, lookup_eq_some_iff.mp hlookup, hle⟩
      rw [hsame]
      simp only [hrows, true_and, settle]
      cases hrow : store.rows.lookup key with
      | none => simp
      | some row =>
        by_cases hle : row.seq ≤ block.asOfSeq
        · rw [if_pos ⟨row, rfl, hle⟩]
          dsimp only
          rw [if_neg (by omega)]
        · rw [if_neg (by rintro ⟨row', heq, hle'⟩; cases heq; exact hle hle')]
          dsimp only
          rw [if_pos (by omega)]

theorem lookup_foldl_receive (items : List (ProjectionItem κ α)) : (items.foldl receive store).rows.lookup key =
      settleAll (store.rows.lookup key) (items.filterMap (ProjectionItem.tells key)) := by
  induction items generalizing store with
  | nil => rfl
  | cons item items ih =>
    rw [foldl_cons, ih, lookup_receive, filterMap_cons]
    cases item.tells key <;> rfl

end ProjectionValueStore

/-! ## One host run -/

/-- The item's values agree with the host at their seq, and a baseline omits exactly the keys absent at its cut. -/
def ProjectionItem.Of (host : κ → Int → Option α) : ProjectionItem κ α → Prop
  | .frame key value seq => host key seq = some value
  | .baseline block => ∀ key, block.values.lookup key = host key block.asOfSeq

theorem ProjectionItem.Of.tells {host : κ → Int → Option α} {item : ProjectionItem κ α}
    (h : item.Of host) {key : κ} {statement : Statement α}
    (htells : item.tells key = some statement) : statement.2 = host key statement.1 := by
  cases item with
  | frame k value seq =>
    rw [ProjectionItem.tells] at htells
    split at htells
    · next heq =>
      subst heq
      rw [← Option.some.inj htells]
      exact h.symm
    · cases htells
  | baseline block =>
    rw [ProjectionItem.tells] at htells
    rw [← Option.some.inj htells]
    exact h key

/-- Two sequences are made of the same items, in whatever order and with whatever repetitions. -/
def SameItems (xs ys : List (ProjectionItem κ α)) : Prop := ∀ item, item ∈ xs ↔ item ∈ ys

/-- No key is omitted at a cut that none of the values carried for it outlives. -/
def OmissionsOutlived (items : List (ProjectionItem κ α)) : Prop :=
  ∀ key cut, (∃ item ∈ items, item.tells key = some (cut, none)) →
    (∃ item ∈ items, ∃ seq value, item.tells key = some (seq, some value)) →
      ∃ item ∈ items, ∃ seq value, item.tells key = some (seq, some value) ∧ cut < seq

namespace ProjectionValueStore

theorem get_receiveAll (key : κ) (items : List (ProjectionItem κ α)) : (receiveAll items).get key =
      (settleAll none (items.filterMap (ProjectionItem.tells key))).map Row.value :=
  congrArg (Option.map Row.value) (lookup_foldl_receive {} key items)

theorem exists_newest {statements : List (Statement α)} (h : ∃ seq value, (seq, some value) ∈ statements) :
    ∃ seq value, (seq, some value) ∈ statements ∧ ∀ date said, (date, some said) ∈ statements → date ≤ seq := by
  induction statements with
  | nil =>
    obtain ⟨seq, value, hmem⟩ := h
    cases hmem
  | cons st sts ih =>
    obtain ⟨date, said⟩ := st
    by_cases hrest : ∃ seq value, (seq, some value) ∈ sts
    · obtain ⟨seq, value, hmem, hle⟩ := ih hrest
      cases said with
      | none =>
        refine ⟨seq, value, mem_cons_of_mem _ hmem, fun d s hs => ?_⟩
        exact hle d s ((mem_cons.mp hs).resolve_left (by simp))
      | some other =>
        rcases Int.le_total date seq with hdate | hdate
        · refine ⟨seq, value, mem_cons_of_mem _ hmem, fun d s hs => ?_⟩
          rcases mem_cons.mp hs with heq | hs
          · rw [(Prod.mk.inj heq).1]
            exact hdate
          · exact hle d s hs
        · refine ⟨date, other, mem_cons_self, fun d s hs => ?_⟩
          rcases mem_cons.mp hs with heq | hs
          · exact Int.le_of_eq (Prod.mk.inj heq).1
          · exact Int.le_trans (hle d s hs) hdate
    · obtain ⟨seq, value, hmem⟩ := h
      rcases mem_cons.mp hmem with heq | hmem
      · refine ⟨seq, value, heq ▸ mem_cons_self, fun d s hs => ?_⟩
        rcases mem_cons.mp hs with heq' | hs
        · exact Int.le_of_eq ((Prod.mk.inj heq').1.trans (Prod.mk.inj heq).1.symm)
        · exact absurd ⟨d, s, hs⟩ hrest
      · exact absurd ⟨seq, value, hmem⟩ hrest

variable {host : κ → Int → Option α} {items : List (ProjectionItem κ α)}

/-- **Whatever the order**, a key whose omissions are outlived holds its newest value. -/
theorem get_of_outlived {xs : List (ProjectionItem κ α)}
    (hof : ∀ item ∈ items, item.Of host) (hlived : OmissionsOutlived items)
    (hxs : SameItems xs items) (key : κ) :
    (∀ seq value, (seq, some value) ∉ xs.filterMap (ProjectionItem.tells key)) ∧ (receiveAll xs).get key = none ∨
      ∃ seq, (receiveAll xs).get key = host key seq ∧
        (∃ item ∈ items, ∃ value, item.tells key = some (seq, some value)) ∧
        ∀ item ∈ items, ∀ date value, item.tells key = some (date, some value) → date ≤ seq := by
  have hsaid : ∀ {st}, st ∈ xs.filterMap (ProjectionItem.tells key) ↔ ∃ item ∈ items, item.tells key = some st := by
    intro st
    rw [mem_filterMap]
    exact ⟨fun ⟨item, hmem, h⟩ => ⟨item, (hxs item).mp hmem, h⟩, fun ⟨item, hmem, h⟩ => ⟨item, (hxs item).mpr hmem, h⟩⟩
  by_cases hcarried : ∃ seq value, (seq, some value) ∈ xs.filterMap (ProjectionItem.tells key)
  · right
    obtain ⟨seq, value, hmem, hle⟩ := exists_newest hcarried
    obtain ⟨item, hitem, htells⟩ := hsaid.mp hmem
    have hvalue : host key seq = some value := ((hof item hitem).tells htells).symm
    refine ⟨seq, ?_, ⟨item, hitem, value, htells⟩, ?_⟩
    · rw [get_receiveAll, @Register.settleAll_newest _ (host key) _ _ _ ?_ hvalue hle ?_ none nofun
        (Or.inl hmem), Option.map_some, hvalue]
      · intro st hst
        obtain ⟨item, hitem, htells⟩ := hsaid.mp hst
        exact (hof item hitem).tells htells
      · intro cut hcut
        obtain ⟨later, hlater, s, v, htells', hlt⟩ :=
          hlived key cut (hsaid.mp hcut) ⟨item, hitem, seq, value, htells⟩
        exact Int.lt_of_lt_of_le hlt (hle s v (hsaid.mpr ⟨later, hlater, htells'⟩))
    · intro other hother date v htells'
      exact hle date v (hsaid.mpr ⟨other, hother, htells'⟩)
  · left
    have hnone : ∀ seq value, (seq, some value) ∉ xs.filterMap (ProjectionItem.tells key) :=
      fun seq value hmem => hcarried ⟨seq, value, hmem⟩
    refine ⟨hnone, ?_⟩
    rw [get_receiveAll, settleAll_empty hnone, Option.map_none]

theorem get_cleared {key : κ} {cut : Int}
    {omitting : ProjectionItem κ α} (homits : omitting.tells key = some (cut, none))
    (hstale : ∀ item ∈ items, ∀ seq value, item.tells key = some (seq, some value) → seq ≤ cut) :
    settleAll none ((items ++ [omitting]).filterMap (ProjectionItem.tells key)) = none := by
  rw [filterMap_append, filterMap_cons_some homits, filterMap_nil]
  apply settleAll_cleared
  intro d said hmem
  obtain ⟨item, hitem, htells⟩ := mem_filterMap.mp hmem
  exact hstale item hitem d said htells

/-- **When the store converges.**  For the items of one host run, all orders and repetitions agree on every key
exactly when no key is omitted at a cut that none of its values outlives. -/
theorem receiveAll_converges_iff (hof : ∀ item ∈ items, item.Of host) :
    (∀ xs ys, SameItems xs items → SameItems ys items →
        ∀ key, (receiveAll xs).get key = (receiveAll ys).get key) ↔ OmissionsOutlived items := by
  constructor
  · intro hconverges key cut homitted hcarried
    obtain ⟨omitting, homitting, homits⟩ := homitted
    obtain ⟨carrying, hcarrying, seq, value, hcarries⟩ := hcarried
    by_contra hstale
    have hstale' : ∀ item ∈ items, ∀ s v, item.tells key = some (s, some v) → s ≤ cut := by
      intro item hitem s v htells
      by_contra hlater
      exact hstale ⟨item, hitem, s, v, htells, Int.not_le.mp hlater⟩
    -- the omission last, and the omission followed by a value
    have hlast : SameItems (items ++ [omitting]) items := by
      intro item
      rw [mem_append, mem_singleton]
      exact ⟨fun h => h.elim id fun heq => heq ▸ homitting, Or.inl⟩
    have hrevived : SameItems (items ++ [omitting] ++ [carrying]) items := by
      intro item
      rw [mem_append, mem_singleton, hlast item]
      exact ⟨fun h => h.elim id fun heq => heq ▸ hcarrying, Or.inl⟩
    have hcleared := get_cleared homits hstale'
    have hfirst : (receiveAll (items ++ [omitting])).get key = none := by
      rw [get_receiveAll, hcleared, Option.map_none]
    have hsecond : (receiveAll (items ++ [omitting] ++ [carrying])).get key = some value := by
      rw [get_receiveAll, filterMap_append, Register.settleAll_append, hcleared,
        filterMap_cons_some hcarries, filterMap_nil, Register.settleAll_revived,
        Option.map_some]
    have heq := hconverges _ _ hlast hrevived key
    rw [hfirst, hsecond] at heq
    cases heq
  · intro hlived xs ys hxs hys key
    rcases get_of_outlived hof hlived hxs key with ⟨hnone, hx⟩ | ⟨seq, hx, ⟨item, hitem, v, htells⟩, hle⟩
    · rcases get_of_outlived hof hlived hys key with ⟨-, hy⟩ | ⟨seq, -, ⟨item, hitem, v, htells⟩, -⟩
      · rw [hx, hy]
      · exact absurd (mem_filterMap.mpr ⟨item, (hxs item).mpr hitem, htells⟩) (hnone seq v)
    · rcases get_of_outlived hof hlived hys key with ⟨hnone, -⟩ | ⟨seq', hy, ⟨item', hitem', v', htells'⟩, hle'⟩
      · exact absurd (mem_filterMap.mpr ⟨item, (hys item).mpr hitem, htells⟩) (hnone seq v)
      · have hseq : seq = seq' := Int.le_antisymm (hle' item hitem seq v htells) (hle item' hitem' seq' v' htells')
        rw [hx, hy, hseq]

def renamedTitle (key : String) (seq : Int) : Option String :=
  if key = "title" then (if 5 ≤ seq then some "b" else if 3 ≤ seq then some "a" else none) else none

/-- The title is set at 3, renamed at 5, and a baseline at 4 carries the first title. -/
def renamedItems : List (ProjectionItem String String) :=
  [.frame "title" "a" 3, .frame "title" "b" 5, .baseline { asOfSeq := 4, values := InsertionMap.set ∅ "title" "a" }]

theorem receiveAll_converges_renamed :
    (receiveAll renamedItems).get "title" = (receiveAll renamedItems.reverse).get "title" := by
  have hvalues : ∀ key, (InsertionMap.set ∅ "title" "a" : InsertionMap String String).lookup key =
      if key = "title" then some "a" else none := by
    intro key
    rw [InsertionMap.lookup_set]
    rfl
  refine (@receiveAll_converges_iff _ _ _ renamedTitle renamedItems ?_).mpr ?_ _ _
    (fun _ => Iff.rfl) (fun _ => mem_reverse) "title"
  rotate_left
  · intro key cut ⟨item, hitem, homits⟩ ⟨carrier, hcarrier, seq, value, hcarries⟩
    refine ⟨.frame "title" "b" 5, by simp [renamedItems], 5, "b", ?_⟩
    simp only [renamedItems, mem_cons, not_mem_nil, or_false] at hitem hcarrier
    -- only the baseline omits, and only keys that nothing carries
    rcases hitem with rfl | rfl | rfl
    · simp [ProjectionItem.tells] at homits
    · simp [ProjectionItem.tells] at homits
    · simp only [ProjectionItem.tells, hvalues, Option.some.injEq, Prod.mk.injEq] at homits
      have hkey : key ≠ "title" := by
        rintro rfl
        simp at homits
      rcases hcarrier with rfl | rfl | rfl
      · simp [ProjectionItem.tells, Ne.symm hkey] at hcarries
      · simp [ProjectionItem.tells, Ne.symm hkey] at hcarries
      · simp [ProjectionItem.tells, hvalues, hkey] at hcarries
  · intro item hitem
    simp only [renamedItems, mem_cons, not_mem_nil, or_false] at hitem
    rcases hitem with rfl | rfl | rfl
    · rfl
    · rfl
    · intro key
      rw [hvalues]
      rfl

/-- A frame at 5 and a baseline at 10 that omits its key: the key ends absent, or present. -/
theorem receiveAll_diverges : ∃ host : String → Int → Option String, ∃ items : List (ProjectionItem String String),
      (∀ item ∈ items, item.Of host) ∧
      ¬ ∀ xs ys, SameItems xs items → SameItems ys items →
        ∀ key, (receiveAll xs).get key = (receiveAll ys).get key := by
  refine ⟨fun key seq => if key = "goal" ∧ seq = 5 then some "v" else none,
    [.frame "goal" "v" 5, .baseline { asOfSeq := 10, values := ∅ }], ?_, ?_⟩
  · intro item hitem
    simp only [mem_cons, not_mem_nil, or_false] at hitem
    rcases hitem with rfl | rfl
    · rfl
    · intro key
      show none = if key = "goal" ∧ (10 : Int) = 5 then some "v" else none
      rw [if_neg (by omega)]
  · intro hconverges
    have heq := hconverges [.frame "goal" "v" 5, .baseline { asOfSeq := 10, values := ∅ }]
      [.baseline { asOfSeq := 10, values := ∅ }, .frame "goal" "v" 5] (fun _ => Iff.rfl)
      (fun item => by simp [or_comm]) "goal"
    have hne : (receiveAll [.frame "goal" "v" 5, .baseline { asOfSeq := 10, values := ∅ }] :
        ProjectionValueStore String String).get "goal" ≠
      (receiveAll [.baseline { asOfSeq := 10, values := ∅ }, .frame "goal" "v" 5] :
        ProjectionValueStore String String).get "goal" := by decide +kernel
    exact hne heq

end ProjectionValueStore

end CocoHarness.Client
