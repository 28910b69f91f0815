import BranchingStory.Play.Execution
import Mathlib.Data.List.Pairwise
import Mathlib.Data.List.Perm.Basic
import Mathlib.Tactic.Common
/-!
# What operations change

An operation acts on one place of a store, which is a variable or a flag. `Store.execute_eq` says so
once: an operation puts something in its target, which depends on what was there and on the value it
works with. Two results follow from that. Types are kept (`Store.types_kept`): only setting makes
values appear, disappear or change their types, and never where a variable holds a list. And
operations that have nothing to do with each other can be run in any order
(`Store.execute_in_any_order`).
-/

namespace BranchingStory

/-! ## Maps -/

namespace KeyMap

variable {α : Type}

theorem lookup_cons (e : String × α) (rest : List (String × α)) (key : String) :
    (e :: rest).lookup key = if key = e.1 then some e.2 else rest.lookup key := by
  rw [List.lookup_cons]
  by_cases h : key = e.1
  · simp [h]
  · simp [h, beq_false_of_ne h]

theorem lookup_insertEntry (key other : String) (value : α) (entries : List (String × α)) :
    (insertEntry key value entries).lookup other =
      if other = key then some value else entries.lookup other := by
  induction entries with
  | nil => simp [insertEntry, lookup_cons]
  | cons e rest ih =>
    unfold insertEntry
    split
    · rw [lookup_cons]
    · split
      · rename_i hkey
        rw [lookup_cons, lookup_cons, hkey]
        split <;> rfl
      · rename_i hkey
        rw [lookup_cons, lookup_cons, ih]
        by_cases h : other = e.1
        · rw [if_pos h, if_pos h, if_neg fun hother => hkey (hother.symm.trans h)]
        · rw [if_neg h, if_neg h]

theorem get?_insert (m : KeyMap α) (key other : String) (value : α) :
    (m.insert key value).get? other = if other = key then some value else m.get? other :=
  lookup_insertEntry key other value m.entries

theorem lookup_filter_ne (key other : String) (entries : List (String × α)) :
    (entries.filter (·.1 ≠ key)).lookup other =
      if other = key then none else entries.lookup other := by
  induction entries with
  | nil => simp
  | cons e rest ih =>
    by_cases hkey : e.1 = key
    · rw [List.filter_cons_of_neg (by simpa using hkey), ih, lookup_cons, hkey]
      split <;> rfl
    · rw [List.filter_cons_of_pos (by simpa using hkey), lookup_cons, lookup_cons, ih]
      by_cases h : other = e.1
      · rw [if_pos h, if_pos h, if_neg fun hother => hkey (h.symm.trans hother)]
      · rw [if_neg h, if_neg h]

theorem get?_erase (m : KeyMap α) (key other : String) :
    (m.erase key).get? other = if other = key then none else m.get? other :=
  lookup_filter_ne key other m.entries

/-- Keys are in order, so each of them has one entry, the one that is found. -/
theorem mem_entries_iff (m : KeyMap α) (e : String × α) :
    e ∈ m.entries ↔ m.get? e.1 = some e.2 := by
  obtain ⟨entries, hsorted⟩ := m
  change e ∈ entries ↔ entries.lookup e.1 = some e.2
  induction entries with
  | nil => simp
  | cons d rest ih =>
    obtain ⟨hfirst, hrest⟩ := List.pairwise_cons.1 hsorted
    rw [List.mem_cons, lookup_cons]
    by_cases hkey : e.1 = d.1
    · have hnot : e ∉ rest := by
        intro hmem
        exact String.lt_irrefl d.1 (hkey ▸ hfirst e hmem)
      simp [hkey, hnot, Prod.ext_iff, eq_comm]
    · have hne : e ≠ d := by
        rintro rfl
        exact hkey rfl
      simp [hkey, hne, ih hrest]

theorem nodup_entries (m : KeyMap α) : m.entries.Nodup := by
  refine m.sorted.imp ?_
  rintro a b hlt rfl
  exact String.lt_irrefl a.1 hlt

/-- Maps in which the same is found are equal. -/
theorem ext_get? {m n : KeyMap α} (h : ∀ key, m.get? key = n.get? key) : m = n := by
  have hperm : m.entries.Perm n.entries := by
    apply (List.perm_ext_iff_of_nodup m.nodup_entries n.nodup_entries).2
    intro e
    rw [mem_entries_iff, mem_entries_iff, h]
  have hentries : m.entries = n.entries := by
    refine hperm.eq_of_pairwise ?_ m.sorted n.sorted
    intro a b _ _ hab hba
    exact absurd hba (String.lt_asymm hab)
  cases m
  cases n
  congr

end KeyMap

/-! ## Places -/

/-- A place of a store: that of a variable or of a flag. -/
inductive Place where
  | variable (id : String)
  | flag (key : String)
deriving DecidableEq, Repr

namespace Store

variable {s t : Store}

/-- What a store holds in a place. -/
def held? (s : Store) : Place → Option Value
  | .variable id => s.get? id
  | .flag key => s.flag? key

/-- The type of what a store holds in a place. -/
def heldType? (s : Store) (p : Place) : Option ValueType := (s.held? p).map Value.type

/-- The store with something else in a place, or with nothing there. -/
def put (s : Store) : Place → Option Value → Store
  | .variable id, content => content.elim (s.unset id) (s.set id)
  | .flag key, content => content.elim (s.unsetFlag key) (s.setFlag key)

theorem held?_put (s : Store) (p q : Place) (content : Option Value) :
    (s.put p content).held? q = if q = p then content else s.held? q := by
  cases p <;> cases q <;> cases content <;>
    simp [put, held?, get?, flag?, set, unset, setFlag, unsetFlag, KeyMap.get?_insert,
      KeyMap.get?_erase]

theorem choicesMade_put (s : Store) (p : Place) (content : Option Value) :
    (s.put p content).choicesMade = s.choicesMade := by
  cases p <;> cases content <;> rfl

/-- A store is what it holds in each place, and the choices made. -/
theorem ext_held? (hheld : ∀ p, s.held? p = t.held? p) (hchoices : s.choicesMade = t.choicesMade) :
    s = t := by
  have hvalues : s.values = t.values := KeyMap.ext_get? fun id => hheld (.variable id)
  have hflags : s.flags = t.flags := KeyMap.ext_get? fun key => hheld (.flag key)
  cases s
  cases t
  congr

/-- Nothing changes where nothing is taken from a place that holds nothing. -/
theorem put_none {p : Place} (h : s.held? p = none) : s.put p none = s := by
  refine ext_held? (fun q => ?_) (choicesMade_put s p none)
  rw [held?_put]
  split
  · rename_i hq
    rw [hq, h]
  · rfl

end Store

/-! ## What an operation is about -/

namespace Action

/-- What becomes of what a variable holds, if it is there. A list stays one, whatever the variable
is set to. -/
def inVariable (action : Action) (current operand : Option Value) (index : Option Int64) :
    Option Value :=
  match action, current with
  | set, some (.list items) => some (.list (set.onList items operand index))
  | set, _ => operand
  | other, _ => current.map (other.onValue · operand index)

/-- What becomes of what a flag holds, if it is there. -/
def inFlag (action : Action) (current operand : Option Value) : Option Value :=
  match action with
  | set => operand
  | other => current.map (other.onFlagValue · operand)

end Action

namespace Operation

/-- The place that an operation acts on. -/
def target? : Operation → Option Place
  | .onVariable id _ _ _ => (given id).map .variable
  | .onFlag key _ _ => (given key).map .flag
  | .retired => none

/-- What an operation does to its target. -/
def action? : Operation → Option Action
  | .onVariable _ action _ _ | .onFlag _ action _ => some action
  | .retired => none

/-- What an operation has to work with. -/
def operand? : Operation → Option Operand
  | .onVariable _ _ operand _ | .onFlag _ _ operand => some operand
  | .retired => none

/-- The variable whose value an operation asks for. -/
def source? (o : Operation) : Option String :=
  (o.operand?.filter (·.fromVariable)).bind (·.source)

/-- The value that an operation works with. -/
def operandIn (o : Operation) (s : Store) : Option Value := o.operand?.bind s.operand

/-- What becomes of what the target holds, when the operation works with `operand`. -/
def outcome (o : Operation) (current operand : Option Value) : Option Value :=
  match o with
  | .onVariable _ action _ index => action.inVariable current operand index
  | .onFlag _ action _ => action.inFlag current operand
  | .retired => current

end Operation

namespace Store

theorem onVariable_eq (s : Store) (id : String) (action : Action) (operand : Option Value)
    (index : Option Int64) :
    s.onVariable id action operand index =
      s.put (.variable id) (action.inVariable (s.get? id) operand index) := by
  unfold onVariable Action.inVariable
  cases hheld : s.get? id with
  | none =>
    have hnone : s.put (.variable id) none = s := put_none hheld
    cases action with
    | set => rfl
    | _ => exact hnone.symm
  | some current =>
    cases action with
    | set => cases current <;> rfl
    | _ => rfl

theorem onFlag_eq (s : Store) (key : String) (action : Action) (operand : Option Value) :
    s.onFlag key action operand = s.put (.flag key) (action.inFlag (s.flag? key) operand) := by
  unfold onFlag Action.inFlag
  cases hheld : s.flag? key with
  | none =>
    have hnone : s.put (.flag key) none = s := put_none hheld
    cases action with
    | set => rfl
    | _ => exact hnone.symm
  | some current => cases action <;> rfl

/-- An operation puts in its target what comes of the content, and does nothing else. -/
theorem execute_eq (s : Store) (o : Operation) :
    s.execute o =
      o.target?.elim s fun p => s.put p (o.outcome (s.held? p) (o.operandIn s)) := by
  cases o with
  | onVariable id action operand index =>
    cases hid : given id with
    | none => simp [execute, Operation.target?, hid]
    | some name =>
      simp only [execute, Operation.target?, hid, Option.elim, Option.map_some]
      exact onVariable_eq s name action _ index
  | onFlag key action operand =>
    cases hkey : given key with
    | none => simp [execute, Operation.target?, hkey]
    | some name =>
      simp only [execute, Operation.target?, hkey, Option.elim, Option.map_some]
      exact onFlag_eq s name action _
  | retired => rfl

theorem held?_execute_of_target {s : Store} {o : Operation} {p : Place} (h : o.target? = some p) :
    (s.execute o).held? p = o.outcome (s.held? p) (o.operandIn s) := by
  rw [execute_eq, h, Option.elim, held?_put, if_pos rfl]

theorem held?_execute_of_ne {s : Store} {o : Operation} {p : Place} (h : o.target? ≠ some p) :
    (s.execute o).held? p = s.held? p := by
  rw [execute_eq]
  cases htarget : o.target? with
  | none => rfl
  | some q =>
    have hne : p ≠ q := by
      rintro rfl
      exact h htarget
    rw [Option.elim, held?_put, if_neg hne]

theorem choicesMade_execute (s : Store) (o : Operation) :
    (s.execute o).choicesMade = s.choicesMade := by
  rw [execute_eq]
  cases o.target? with
  | none => rfl
  | some p => exact choicesMade_put ..

theorem choicesMade_executeAll (s : Store) (operations : List Operation) :
    (s.executeAll operations).choicesMade = s.choicesMade := by
  induction operations generalizing s with
  | nil => rfl
  | cons o rest ih => exact (ih (s.execute o)).trans (choicesMade_execute s o)

end Store

/-! ## Types -/

namespace Action

theorem type_onValue (action : Action) (current : Value) (operand : Option Value)
    (index : Option Int64) : (action.onValue current operand index).type = current.type := by
  cases current with
  | text s => cases action <;> cases operand <;> rfl
  | _ => rfl

theorem type_onFlagValue (action : Action) (current : Value) (operand : Option Value) :
    (action.onFlagValue current operand).type = current.type := by
  cases current <;> rfl

/-- Only setting makes something appear in a variable, disappear from it or change its type. -/
theorem type_inVariable {action : Action} (h : action ≠ set) (current operand : Option Value)
    (index : Option Int64) :
    (action.inVariable current operand index).map Value.type = current.map Value.type := by
  cases action with
  | set => exact absurd rfl h
  | _ => cases current <;> simp [inVariable, type_onValue]

theorem type_inFlag {action : Action} (h : action ≠ set) (current operand : Option Value) :
    (action.inFlag current operand).map Value.type = current.map Value.type := by
  cases action with
  | set => exact absurd rfl h
  | _ => cases current <;> simp [inFlag, type_onFlagValue]

/-- A variable with a list keeps one. -/
theorem type_inVariable_list (action : Action) (items : List Value) (operand : Option Value)
    (index : Option Int64) :
    (action.inVariable (some (.list items)) operand index).map Value.type = some .list := by
  cases action <;> rfl

/-- A variable without a list is set to anything. -/
theorem inVariable_set {current : Option Value} (h : current.map Value.type ≠ some .list)
    (operand : Option Value) (index : Option Int64) :
    set.inVariable current operand index = operand := by
  cases current with
  | none => rfl
  | some value =>
    cases value with
    | list items => exact absurd rfl h
    | _ => rfl

end Action

namespace Operation

theorem type_outcome {o : Operation} (h : o.action? ≠ some .set) (current operand : Option Value) :
    (o.outcome current operand).map Value.type = current.map Value.type := by
  cases o with
  | onVariable id action own index =>
    exact Action.type_inVariable (fun hset => h (congrArg some hset)) ..
  | onFlag key action own => exact Action.type_inFlag (fun hset => h (congrArg some hset)) ..
  | retired => rfl

/-- An operation whose target is a variable is one on a variable. -/
theorem exists_of_target? {o : Operation} {id : String} (h : o.target? = some (.variable id)) :
    ∃ name action operand index, o = .onVariable name action operand index := by
  cases o with
  | onVariable name action operand index => exact ⟨name, action, operand, index, rfl⟩
  | onFlag key action operand =>
    obtain ⟨_, _, hplace⟩ := Option.map_eq_some_iff.1 h
    cases hplace
  | retired => cases h

end Operation

namespace Store

variable {s : Store} {o : Operation}

theorem heldType?_execute (h : o.action? ≠ some .set) (p : Place) :
    (s.execute o).heldType? p = s.heldType? p := by
  unfold heldType?
  by_cases htarget : o.target? = some p
  · rw [held?_execute_of_target htarget]
    exact Operation.type_outcome h ..
  · rw [held?_execute_of_ne htarget]

theorem heldType?_execute_of_list {id : String} (h : s.heldType? (.variable id) = some .list) :
    (s.execute o).heldType? (.variable id) = some .list := by
  by_cases htarget : o.target? = some (.variable id)
  · obtain ⟨name, action, operand, index, rfl⟩ := Operation.exists_of_target? htarget
    obtain ⟨value, hvalue, htype⟩ := Option.map_eq_some_iff.1 h
    unfold heldType?
    rw [held?_execute_of_target htarget, hvalue]
    cases value with
    | list items => exact Action.type_inVariable_list action items _ index
    | _ => cases htype
  · unfold heldType?
    rw [held?_execute_of_ne htarget]
    exact h

theorem heldType?_executeAll_of_list {id : String} (operations : List Operation)
    (h : s.heldType? (.variable id) = some .list) :
    (s.executeAll operations).heldType? (.variable id) = some .list := by
  induction operations generalizing s with
  | nil => exact h
  | cons o rest ih => exact ih (heldType?_execute_of_list h)

/-- What is set becomes what the operation works with, unless it is a variable with a list. -/
theorem held?_execute_of_set {p : Place} (hset : o.action? = some .set)
    (htarget : o.target? = some p) (hlist : ∀ id, p = .variable id → s.heldType? p ≠ some .list) :
    (s.execute o).held? p = o.operandIn s := by
  rw [held?_execute_of_target htarget]
  cases o with
  | onVariable id action own index =>
    obtain rfl : action = .set := Option.some.inj hset
    obtain ⟨name, -, rfl⟩ := Option.map_eq_some_iff.1 htarget
    exact Action.inVariable_set (hlist name rfl) _ index
  | onFlag key action own =>
    obtain rfl : action = .set := Option.some.inj hset
    rfl
  | retired => cases hset

end Store

/-! ## Operations apart from each other -/

namespace Operation

/-- Operations that have nothing to do with each other: they act on different places, and neither
asks for the value of the variable that the other one acts on. -/
structure Apart (a b : Operation) : Prop where
  targets : ∀ p, a.target? = some p → b.target? ≠ some p
  left : ∀ id, a.source? = some id → b.target? ≠ some (.variable id)
  right : ∀ id, b.source? = some id → a.target? ≠ some (.variable id)

theorem Apart.symm {a b : Operation} (h : a.Apart b) : b.Apart a where
  targets p hb ha := h.targets p ha hb
  left := h.right
  right := h.left

/-- What an operation works with is the same where its source holds the same. -/
theorem operandIn_congr {o : Operation} {s t : Store}
    (h : ∀ id, o.source? = some id → s.get? id = t.get? id) : o.operandIn s = o.operandIn t := by
  unfold operandIn
  cases hoperand : o.operand? with
  | none => rfl
  | some operand =>
    simp only [Option.bind_some, Store.operand]
    by_cases hasked : operand.fromVariable
    · cases hsource : operand.source with
      | none => rfl
      | some id =>
        have hsame : s.get? id = t.get? id := by
          apply h
          simp [source?, hoperand, Option.filter_some, hasked, hsource]
        simp [hsame]
    · simp [hasked]

end Operation

namespace Store

/-- An operation works with the same after another one that leaves its source alone. -/
theorem operandIn_execute {a b : Operation}
    (h : ∀ id, a.source? = some id → b.target? ≠ some (.variable id)) (s : Store) :
    a.operandIn (s.execute b) = a.operandIn s :=
  Operation.operandIn_congr fun id hid => held?_execute_of_ne (h id hid)

/-- What an operation leaves in its target is the same after another one apart from it. -/
theorem held?_execute_execute {a b : Operation} (h : a.Apart b) (s : Store) {p : Place}
    (htarget : a.target? = some p) :
    ((s.execute b).execute a).held? p = (s.execute a).held? p := by
  rw [held?_execute_of_target htarget, held?_execute_of_target htarget,
    held?_execute_of_ne (h.targets p htarget), operandIn_execute h.left]

theorem execute_comm {a b : Operation} (h : a.Apart b) (s : Store) :
    (s.execute a).execute b = (s.execute b).execute a := by
  apply ext_held?
  · intro p
    by_cases ha : a.target? = some p
    · rw [held?_execute_execute h s ha, held?_execute_of_ne (h.targets p ha)]
    · rw [held?_execute_of_ne ha]
      by_cases hb : b.target? = some p
      · exact held?_execute_execute h.symm s hb
      · rw [held?_execute_of_ne hb, held?_execute_of_ne hb, held?_execute_of_ne ha]
  · simp only [choicesMade_execute]

/-- Operations that are apart from each other can be run in any order. -/
theorem executeAll_perm {operations others : List Operation} (hperm : operations.Perm others)
    (h : operations.Pairwise Operation.Apart) (s : Store) :
    s.executeAll operations = s.executeAll others := by
  apply hperm.foldl_eq'
  intro a ha b hb t
  by_cases hab : a = b
  · rw [hab]
  · have : Std.Symm Operation.Apart := ⟨fun _ _ => Operation.Apart.symm⟩
    exact execute_comm (h.forall ha hb hab) t

/-! ## Main results -/

/-- A variable that holds a list holds one after any operations. By itself an operation changes
whether there is something in a place, or its type, only if it sets it and this is its target, which
is no variable with a list. Such a target has then what the operation works with. No operation
changes the choices made. -/
theorem types_kept (s : Store) :
    (∀ operations id items, s.get? id = some (.list items) →
      ∃ after, (s.executeAll operations).get? id = some (.list after)) ∧
    (∀ o, o.action? ≠ some .set → ∀ p, (s.execute o).heldType? p = s.heldType? p) ∧
    (∀ o p, (s.execute o).heldType? p ≠ s.heldType? p →
      o.target? = some p ∧ ∀ id, p = .variable id → s.heldType? p ≠ some .list) ∧
    (∀ o p, o.action? = some .set → o.target? = some p →
      (∀ id, p = .variable id → s.heldType? p ≠ some .list) →
      (s.execute o).held? p = o.operandIn s) ∧
    ∀ operations, (s.executeAll operations).choicesMade = s.choicesMade := by
  refine ⟨?lists, fun o h p => heldType?_execute h p, ?changed,
    fun o p hset htarget hlist => held?_execute_of_set hset htarget hlist,
    choicesMade_executeAll s⟩
  case lists =>
    intro operations id items hitems
    have hlist : s.heldType? (.variable id) = some .list := congrArg (Option.map Value.type) hitems
    obtain ⟨value, hvalue, htype⟩ :=
      Option.map_eq_some_iff.1 (heldType?_executeAll_of_list operations hlist)
    cases value with
    | list after => exact ⟨after, hvalue⟩
    | _ => cases htype
  case changed =>
    intro o p hchanged
    constructor
    · by_contra htarget
      apply hchanged
      unfold heldType?
      rw [held?_execute_of_ne htarget]
    · rintro id rfl hlist
      exact hchanged ((heldType?_execute_of_list hlist).trans hlist.symm)

end Store

namespace Satchel

/-- A list and a text, and a flag with the name of the text. -/
def store : Store where
  values := .ofList [("bag", .list [.text "key"]), ("name", .text "Ann")]
  flags := .ofList [("name", .bool true)]

/-- Puts the list into itself. -/
def nesting : Operation := .withVariable "bag" .push "bag"

/-- Sets the list to a text, which is no list. -/
def emptying : Operation := .withValue "bag" .set (.text "")

/-- Sets the text to the list. -/
def bagging : Operation := .withVariable "name" .set "bag"

theorem types_kept_satchel :
    (∃ after, (store.executeAll [nesting, emptying, bagging]).get? "bag" = some (.list after)) ∧
    (∀ p, (store.execute nesting).heldType? p = store.heldType? p) ∧
    (bagging.target? = some (.variable "name") ∧
      ∀ id, Place.variable "name" = .variable id →
        store.heldType? (.variable "name") ≠ some .list) ∧
    (store.execute bagging).held? (.variable "name") = some (.list [.text "key"]) := by
  obtain ⟨hlists, hkept, hchanged, hset, -⟩ := Store.types_kept store
  have hname : (store.execute bagging).heldType? (.variable "name") ≠
      store.heldType? (.variable "name") := by
    decide +kernel
  have hbagging := hchanged bagging (.variable "name") hname
  refine ⟨hlists _ "bag" [.text "key"] (by decide +kernel), hkept nesting (by decide), hbagging, ?_⟩
  exact hset bagging (.variable "name") rfl rfl hbagging.2

end Satchel

namespace Store

/-- An operation leaves every place but its target as it is. So two operations come to the same
store in either order, if they act on different places and neither asks for the value of the
variable that the other one acts on, and any number of such operations come to the same store in
every order. -/
theorem execute_in_any_order (s : Store) :
    (∀ o p, o.target? ≠ some p → (s.execute o).held? p = s.held? p) ∧
    (∀ a b, a.Apart b → (s.execute a).execute b = (s.execute b).execute a) ∧
    ∀ operations others : List Operation, operations.Perm others →
      operations.Pairwise Operation.Apart → s.executeAll operations = s.executeAll others :=
  ⟨fun _ _ h => held?_execute_of_ne h, fun _ _ h => execute_comm h s,
    fun _ _ hperm h => executeAll_perm hperm h s⟩

end Store

namespace Satchel

/-- Puts the text into the list. -/
def packing : Operation := .withVariable "bag" .push "name"

/-- Sets a flag with the name of the list to the text. -/
def labelling : Operation :=
  .onFlag (some "bag") .set { fromVariable := true, source := some "name" }

theorem packing_apart_labelling : packing.Apart labelling where
  targets := by
    rintro p ⟨⟩
    decide
  left := by
    rintro id ⟨⟩
    decide
  right := by
    rintro id ⟨⟩
    decide

theorem execute_in_any_order_satchel :
    (store.execute packing).held? (.variable "name") = store.held? (.variable "name") ∧
    (packing.Apart labelling ∧
      (store.execute packing).execute labelling = (store.execute labelling).execute packing) ∧
    store.executeAll [packing, labelling] = store.executeAll [labelling, packing] := by
  obtain ⟨hkept, hcomm, hperm⟩ := Store.execute_in_any_order store
  refine ⟨hkept packing _ (by decide),
    ⟨packing_apart_labelling, hcomm packing labelling packing_apart_labelling⟩, ?_⟩
  exact hperm _ _ (.swap ..) (List.pairwise_pair.2 packing_apart_labelling)

end Satchel

end BranchingStory
