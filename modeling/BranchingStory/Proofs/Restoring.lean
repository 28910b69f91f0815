import BranchingStory.Proofs.Accepted
import BranchingStory.Proofs.Documents
/-!
# What was read can be written and read again

`Form.Restores` says of a type that its documents are read as what they were written from, and that
a document which came of a legible tree is written as a legible one: its doubles are finite and it
is nested no deeper than allowed. A list or a map that was not there may be written as an empty one,
so that some levels must be allowed in any case.

Reading puts records together field by field. `Record.Yields` says what comes of fields that are
legible, with one rule for each way in which records are put together.
-/

namespace BranchingStory.Json

/-! ## Legible trees -/

/-- Where all of a tree would do, a part of it does. -/
theorem Legible.of_whole {room : Nat} {j : Json} (h : Legible .whole room j) (o : Outline) :
    Legible o room j := by
  generalize hw : Outline.whole = w at h
  induction h generalizing o with
  | skipped h =>
    subst hw
    cases h
  | null => exact .null o _
  | bool _ _ b => exact .bool o _ b
  | text _ _ s => exact .text o _ s
  | integer _ _ hlow hhigh => exact .integer o _ hlow hhigh
  | real _ _ h => exact .real o _ h
  | array _ ih =>
    subst hw
    exact .array fun j hj => ih j hj o.item rfl
  | object _ ih =>
    subst hw
    exact .object fun f hf => ih f hf (o.field f.1) rfl

/-- It does not matter whether a value may be `null`. -/
theorem Legible.of_orNull {o : Outline} {room : Nat} {j : Json} (h : Legible o.orNull room j) :
    Legible o room j := by
  cases o with
  | word b =>
    cases h with
    | skipped h => cases h
    | null => exact .null _ _
    | bool _ _ b => exact .bool _ _ b
    | text _ _ s => exact .text _ _ s
    | integer _ _ hlow hhigh => exact .integer _ _ hlow hhigh
    | real _ _ h => exact .real _ _ h
    | array h => exact .array h
    | object h => exact .object h
  | whole | skipped | list | record => exact h

/-- Whether all of each field is legible. -/
def LegibleFields (room : Nat) (fields : Fields) : Prop := ∀ f ∈ fields, Legible .whole room f.2

@[simp] theorem legible_null (o : Outline) (room : Nat) : Legible o room .null := .null o room

@[simp] theorem legible_bool (o : Outline) (room : Nat) (b : Bool) : Legible o room (.bool b) :=
  .bool o room b

@[simp] theorem legible_text (o : Outline) (room : Nat) (s : String) : Legible o room (.text s) :=
  .text o room s

@[simp] theorem legible_real {room : Nat} {x : Float} :
    Legible .whole room (.real x) ↔ x.isFinite := by
  constructor
  · intro h
    cases h with
    | skipped h => cases h
    | real _ _ h => exact h
  · exact .real _ _

@[simp] theorem legible_array {room : Nat} {items : List Json} :
    Legible .whole (room + 1) (.array items) ↔ ∀ j ∈ items, Legible .whole room j := by
  constructor
  · intro h
    cases h with
    | skipped h => cases h
    | array h => exact h
  · exact fun h => .array (o := .whole) h

@[simp] theorem legible_object {room : Nat} {fields : Fields} :
    Legible .whole (room + 1) (.object fields) ↔ LegibleFields room fields := by
  constructor
  · intro h
    cases h with
    | skipped h => cases h
    | object h => exact h
  · exact fun h => .object (o := .whole) h

@[simp] theorem legible_ofOption {α : Type} {write : α → Json} {room : Nat} {o : Option α} :
    Legible .whole room (ofOption write o) ↔ ∀ a ∈ o, Legible .whole room (write a) := by
  cases o <;> simp [ofOption]

namespace LegibleFields

variable {α : Type} {room : Nat} {name : String} {write : α → Json}

@[simp] theorem nil : LegibleFields room [] := nofun

@[simp] theorem cons {value : Json} {rest : Fields} :
    LegibleFields room ((name, value) :: rest) ↔
      Legible .whole room value ∧ LegibleFields room rest :=
  List.forall_mem_cons

@[simp] theorem append {a b : Fields} :
    LegibleFields room (a ++ b) ↔ LegibleFields room a ∧ LegibleFields room b :=
  List.forall_mem_append

@[simp] theorem optionalField {o : Option α} :
    LegibleFields room (optionalField name write o) ↔
      ∀ a ∈ o, Legible .whole room (write a) := by
  cases o <;> simp [Json.optionalField]

@[simp] theorem listField {items : List α} :
    LegibleFields room (listField name write items) ↔
      (items ≠ [] → Legible .whole room (ofList write items)) := by
  cases items <;> simp [Json.listField]

@[simp] theorem mapField {m : KeyMap α} :
    LegibleFields room (mapField name write m) ↔
      (m.isEmpty = false → Legible .whole room (ofKeyMap write m)) := by
  cases h : m.isEmpty <;> simp [Json.mapField, h]

@[simp] theorem trueField {b : Bool} : LegibleFields room (trueField name b) := by
  cases b <;> simp [Json.trueField]

end LegibleFields

mutual

/-- What is legible as a whole is nested no deeper than allowed and has finite doubles. -/
theorem bounds_of_legible : ∀ (j : Json) {room : Nat}, Legible .whole room j →
    j.depth ≤ room ∧ ∀ x ∈ j.reals, x.isFinite
  | .null, _, _ | .bool _, _, _ | .integer _, _, _ | .text _, _, _ => by simp [depth, reals]
  | .real x, _, h => by simpa [depth, reals] using h
  | .array items, 0, h => by
    cases h with
    | skipped h => cases h
  | .array items, room + 1, h => by
    simpa [depth, reals] using bounds_of_legibleItems items (legible_array.1 h)
  | .object fields, 0, h => by
    cases h with
    | skipped h => cases h
  | .object fields, room + 1, h => by
    simpa [depth, reals] using bounds_of_legibleFields fields (legible_object.1 h)

theorem bounds_of_legibleItems : ∀ (items : List Json) {room : Nat},
    (∀ j ∈ items, Legible .whole room j) →
      depthItems items ≤ room ∧ ∀ x ∈ realsItems items, x.isFinite
  | [], _, _ => by simp [depthItems, realsItems]
  | item :: rest, room, h => by
    obtain ⟨hitem, hrest⟩ := List.forall_mem_cons.1 h
    have hfirst := bounds_of_legible item hitem
    have hothers := bounds_of_legibleItems rest hrest
    simp only [depthItems, realsItems, Nat.max_le, List.forall_mem_append]
    exact ⟨⟨hfirst.1, hothers.1⟩, hfirst.2, hothers.2⟩

theorem bounds_of_legibleFields : ∀ (fields : Fields) {room : Nat}, LegibleFields room fields →
      depthFields fields ≤ room ∧ ∀ x ∈ realsFields fields, x.isFinite
  | [], _, _ => by simp [depthFields, realsFields]
  | (_, value) :: rest, room, h => by
    obtain ⟨hvalue, hrest⟩ := LegibleFields.cons.1 h
    have hfirst := bounds_of_legible value hvalue
    have hothers := bounds_of_legibleFields rest hrest
    simp only [depthFields, realsFields, Nat.max_le, List.forall_mem_append]
    exact ⟨⟨hfirst.1, hothers.1⟩, hfirst.2, hothers.2⟩

end

mutual

/-- A tree without doubles that has the shape of some outline is legible where there is room. -/
theorem legible_of_fits : ∀ (j : Json) {o : Outline} {room : Nat}, o.fits j → j.depth ≤ room →
    j.reals = [] → Legible .whole room j
  | .null, _, _, _, _, _ => .null _ _
  | .bool b, _, _, _, _, _ => .bool _ _ b
  | .text s, _, _, _, _, _ => .text _ _ s
  | .integer n, _, _, h, _, _ => by
    simp only [Outline.fits, Bool.and_eq_true, decide_eq_true_eq] at h
    exact .integer _ _ h.1.2 h.2
  | .real x, _, _, _, _, h => by cases h
  | .array items, _, 0, _, hdepth, _ => by cases hdepth
  | .array items, _, room + 1, h, hdepth, hreals => by
    simp only [Outline.fits, Bool.and_eq_true] at h
    exact .array (legible_of_fitsItems items h.2 (Nat.le_of_succ_le_succ hdepth) hreals)
  | .object fields, _, 0, _, hdepth, _ => by cases hdepth
  | .object fields, _, room + 1, h, hdepth, hreals => by
    simp only [Outline.fits, Bool.and_eq_true] at h
    exact .object (legible_of_fitsFields fields h.2 (Nat.le_of_succ_le_succ hdepth) hreals)

theorem legible_of_fitsItems : ∀ (items : List Json) {o : Outline} {room : Nat},
    o.fitsItems items → depthItems items ≤ room → realsItems items = [] →
      ∀ j ∈ items, Legible .whole room j
  | [], _, _, _, _, _ => nofun
  | item :: rest, _, _, h, hdepth, hreals => by
    simp only [Outline.fitsItems, Bool.and_eq_true] at h
    simp only [depthItems, Nat.max_le] at hdepth
    simp only [realsItems, List.append_eq_nil_iff] at hreals
    exact List.forall_mem_cons.2 ⟨legible_of_fits item h.1 hdepth.1 hreals.1,
      legible_of_fitsItems rest h.2 hdepth.2 hreals.2⟩

theorem legible_of_fitsFields : ∀ (fields : Fields) {o : Outline} {room : Nat},
    o.fitsFields fields → depthFields fields ≤ room → realsFields fields = [] →
      LegibleFields room fields
  | [], _, _, _, _, _ => nofun
  | (_, value) :: rest, _, _, h, hdepth, hreals => by
    simp only [Outline.fitsFields, Bool.and_eq_true] at h
    simp only [depthFields, Nat.max_le] at hdepth
    simp only [realsFields, List.append_eq_nil_iff] at hreals
    exact LegibleFields.cons.2 ⟨legible_of_fits value h.1 hdepth.1 hreals.1,
      legible_of_fitsFields rest h.2 hdepth.2 hreals.2⟩

end

mutual

/-- What has the shape of some outline will do where all of it is looked at. -/
theorem Outline.fits_whole : ∀ {o : Outline} {j : Json}, o.fits j → whole.fits j
  | _, .null, _ | _, .bool _, _ | _, .real _, _ | _, .text _, _ => rfl
  | _, .integer n, h => by
    simp only [fits, Bool.and_eq_true] at h ⊢
    exact ⟨⟨⟨rfl, rfl⟩, h.1.2⟩, h.2⟩
  | _, .array items, h => by
    simp only [fits, Bool.and_eq_true] at h ⊢
    exact ⟨⟨rfl, rfl⟩, fitsItems_whole h.2⟩
  | _, .object fields, h => by
    simp only [fits, Bool.and_eq_true] at h ⊢
    exact ⟨⟨rfl, rfl⟩, fitsFields_whole h.2⟩

theorem Outline.fitsItems_whole : ∀ {o : Outline} {items : List Json}, o.fitsItems items →
    whole.fitsItems items
  | _, [], _ => rfl
  | _, item :: rest, h => by
    simp only [fitsItems, Bool.and_eq_true] at h ⊢
    exact ⟨fits_whole h.1, fitsItems_whole h.2⟩

theorem Outline.fitsFields_whole : ∀ {o : Outline} {fields : Fields}, o.fitsFields fields →
    whole.fitsFields fields
  | _, [], _ => rfl
  | _, (_, value) :: rest, h => by
    simp only [fitsFields, Bool.and_eq_true] at h ⊢
    exact ⟨fits_whole h.1, fitsFields_whole h.2⟩

end

/-! ## Types of documents -/

/-- Documents of a type are read as what they were written from. One that came of a legible tree is
written as a legible one, where so many levels are allowed at least. -/
structure Form.Restores {α : Type} (form : Form α) (write : α → Json) (levels : Nat) : Prop where
  ne_null : ∀ a, write a ≠ .null
  read : ∀ a, form.read (write a) = .ok a
  fits : ∀ a, form.outline.fits (write a)
  kept : ∀ {room : Nat} {j : Json} {a : α}, levels ≤ room → Legible form.outline room j →
    form.read j = .ok a → Legible .whole room (write a)

namespace Form

section
variable {α : Type} {form : Form α} {write : α → Json} {levels : Nat}

/-- Every document without doubles is legible, wherever it came from. -/
theorem Inverts.legible (h : form.Inverts write levels) {room : Nat} (hroom : levels ≤ room)
    (a : α) : Legible .whole room (write a) :=
  legible_of_fits (write a) (h.fits a) (Nat.le_trans (h.depth a) hroom) (h.reals a)

theorem Inverts.fits_whole (h : form.Inverts write levels) (a : α) :
    Outline.whole.fits (write a) :=
  Outline.fits_whole (h.fits a)

theorem Restores.fits_whole (h : form.Restores write levels) (a : α) :
    Outline.whole.fits (write a) :=
  Outline.fits_whole (h.fits a)

theorem Restores.readOr_map (h : form.Restores write levels) (o : Option α) :
    form.orNull.readOr (.ok none) (o.map write) = .ok o :=
  Form.readOr_map h.ne_null h.read o

theorem Restores.read_ofOption (h : form.Restores write levels) (o : Option α) :
    form.orNull.read (ofOption write o) = .ok o :=
  Form.read_ofOption h.ne_null h.read o

theorem Restores.readOr_list (h : form.Restores write levels) (items : List α) :
    form.list.readOr (.ok []) (if items = [] then none else some (ofList write items)) =
      .ok items :=
  Form.readOr_list h.read items

theorem kept_orNull (h : form.Restores write levels) {room : Nat} {j : Json} {o : Option α}
    (hroom : levels ≤ room) (hj : Legible form.orNull.outline room j)
    (ho : form.orNull.read j = .ok o) : ∀ a ∈ o, Legible .whole room (write a) := by
  intro a ha
  obtain rfl : o = some a := ha
  have hread : form.read j = .ok a := by
    cases j with
    | null => cases ho
    | _ =>
      obtain ⟨b, hb, hsome⟩ := map_eq_ok.1 ho
      exact Option.some.inj hsome ▸ hb
  exact h.kept hroom hj.of_orNull hread

theorem restores_double : double.Restores .real 0 where
  ne_null _ := nofun
  read _ := rfl
  fits _ := rfl
  kept {room j x} _ hj hx := by
    cases hj with
    | skipped h => cases h
    | integer _ _ hlow hhigh =>
      obtain rfl := Except.ok.inj hx
      have hsize : Int64.minValue.toInt = -9223372036854775808 := rfl
      have hsmall : UInt64.size = 18446744073709551616 := rfl
      exact legible_real.2 (Decimal.isFinite_wholeToFloat (by omega))
    | real _ _ h =>
      obtain rfl := Except.ok.inj hx
      exact legible_real.2 h
    | null | bool | text | array | object => cases hx

theorem restores_list (h : form.Restores write levels) :
    form.list.Restores (ofList write) (levels + 1) where
  ne_null _ := nofun
  read items := mapM_ok fun a _ => h.read a
  fits items := fits_list h.fits items
  kept {room j items} hroom hj hitems := by
    cases hj with
    | skipped h => cases h
    | array hj =>
      refine legible_array.2 (List.forall_mem_map.2 fun a ha => ?_)
      obtain ⟨j, hmem, ha⟩ := exists_of_mem_mapM hitems ha
      exact h.kept (Nat.le_of_succ_le_succ hroom) (hj j hmem) ha
    | null | bool | text | integer | real | object => cases hitems

theorem restores_keyMap (h : form.Restores write levels) :
    form.keyMap.Restores (ofKeyMap write) (levels + 1) where
  ne_null _ := nofun
  read m := by
    have hentries : (m.entries.map fun e => (e.1, write e.2)).mapM
        (fun e => do return (e.1, ← form.read e.2)) = (.ok m.entries : Reading _) :=
      mapM_ok fun e _ => by
        simp only [h.read e.2]
        rfl
    simp only [keyMap, ofKeyMap, fields, bind, bind_ok] at hentries ⊢
    rw [hentries]
    exact congrArg Except.ok m.ofList_entries
  fits m := fits_ofKeyMap h.fits m
  kept {room j m} hroom hj hm := by
    cases hj with
    | skipped h => cases h
    | object hj =>
      obtain ⟨entries, hentries, hm⟩ := bind_eq_ok.1 hm
      obtain rfl := Except.ok.inj hm
      refine legible_object.2 (List.forall_mem_map.2 fun e he => ?_)
      obtain ⟨f, hmem, he⟩ := exists_of_mem_mapM hentries (KeyMap.mem_of_mem_ofList he)
      obtain ⟨a, ha, hpair⟩ := bind_eq_ok.1 he
      obtain rfl := Except.ok.inj hpair
      exact h.kept (Nat.le_of_succ_le_succ hroom) (hj f hmem) ha
    | null | bool | text | integer | real | array => cases hm

/-- A map that is left out is read as the one without entries. -/
theorem Restores.readOr_keyMap (h : form.Restores write levels) (m : KeyMap α) :
    form.keyMap.readOr (.ok .empty) (if m.isEmpty then none else some (ofKeyMap write m)) =
      .ok m := by
  split
  · rename_i hempty
    obtain ⟨entries, hsorted⟩ := m
    obtain rfl : entries = [] := List.isEmpty_iff.1 hempty
    rfl
  · exact (restores_keyMap h).read m

end

end Form

/-! ## Records -/

theorem Fields.mem_of_find {fields : Fields} {names : List String} {value : Json}
    (h : fields.find names = .ok (some value)) : ∃ name ∈ names, (name, value) ∈ fields := by
  unfold find at h
  split at h
  · cases h
  · rename_i name found hfilter
    obtain rfl := Option.some.inj (Except.ok.inj h)
    have hmem : (name, found) ∈ fields.filter fun f => names.contains f.1 := by
      rw [hfilter]
      exact List.mem_singleton_self _
    obtain ⟨hfield, hname⟩ := List.mem_filter.1 hmem
    exact ⟨name, List.contains_iff_mem.1 hname, hfield⟩
  · cases h

namespace Record

section
variable {α β : Type} {room : Nat}

/-- Whether fields are legible as far as a record looks at them. -/
def Finds (r : Record α) (room : Nat) (fields : Fields) : Prop :=
  ∀ f ∈ fields, ∀ o, (f.1, o) ∈ r.outlines → Legible o room f.2

/-- Whether what a record reads has a property, of whatever legible fields it reads it. -/
def Yields (r : Record α) (room : Nat) (P : α → Prop) : Prop :=
  ∀ (fields : Fields) (a : α), r.Finds room fields → r.read fields = .ok a → P a

/-- Fields that are legible as a whole are so for any record. -/
theorem finds_of_whole {fields : Fields} (h : LegibleFields room fields)
    (r : Record α) : r.Finds room fields :=
  fun f hf o _ => (h f hf).of_whole o

theorem Yields.any {r : Record α} : r.Yields room fun _ => True := fun _ _ _ _ => trivial

theorem Yields.pure {a : α} {P : α → Prop} (h : P a) : (pure a : Record α).Yields room P := by
  intro fields b _ hb
  obtain rfl := Except.ok.inj hb
  exact h

theorem Yields.map {r : Record α} {g : α → β} {P : α → Prop} {Q : β → Prop}
    (h : ∀ a, P a → Q (g a)) (hr : r.Yields room P) : (g <$> r).Yields room Q := by
  intro fields b hfields hb
  obtain ⟨a, ha, rfl⟩ := map_eq_ok.1 hb
  exact h a (hr fields a hfields ha)

theorem Yields.seq {g : Record (α → β)} {r : Record α} {P : α → Prop} {Q : β → Prop}
    (hg : g.Yields room fun g => ∀ a, P a → Q (g a)) (hr : r.Yields room P) :
    (g <*> r).Yields room Q := by
  intro fields b hfields hb
  rw [read_seq] at hb
  obtain ⟨g', hg', hrest⟩ := bind_eq_ok.1 hb
  obtain ⟨a, ha, rfl⟩ := map_eq_ok.1 hrest
  have hfirst : g.Finds room fields :=
    fun f hf o ho => hfields f hf o (List.mem_append_left _ ho)
  have hsecond : r.Finds room fields :=
    fun f hf o ho => hfields f hf o (List.mem_append_right _ ho)
  exact hg fields g' hfirst hg' a (hr fields a hsecond ha)

/-- A field that may be missing. -/
theorem yields_default {form : Form α} {default : α} {P : α → Prop} (name : String)
    (hdefault : P default)
    (hread : ∀ {j a}, Legible form.outline room j → form.read j = .ok a → P a) :
    (withDefault name default form).Yields room P := by
  intro fields a hfields ha
  obtain ⟨found, hfound, ha⟩ := bind_eq_ok.1 ha
  cases found with
  | none =>
    obtain rfl := Except.ok.inj ha
    exact hdefault
  | some value =>
    obtain ⟨_, hname, hmem⟩ := Fields.mem_of_find hfound
    rw [List.mem_singleton.1 hname] at hmem
    have hvalue : Legible form.outline room value :=
      hfields (name, value) hmem _ (List.mem_singleton_self _)
    exact hread hvalue ha

section
variable {form : Form α} {write : α → Json} {levels : Nat} (h : form.Restores write levels)
include h

theorem Yields.requiredAs (hroom : levels ≤ room) (names : List String) :
    (requiredAs names form).Yields room fun a => Legible .whole room (write a) := by
  intro fields a hfields ha
  obtain ⟨found, hfound, hread⟩ := bind_eq_ok.1 ha
  cases found with
  | none => cases hread
  | some value =>
    obtain ⟨name, hname, hmem⟩ := Fields.mem_of_find hfound
    have hvalue : Legible form.outline room value :=
      hfields (name, value) hmem _ (List.mem_map.2 ⟨name, hname, rfl⟩)
    exact h.kept hroom hvalue hread

theorem Yields.required (hroom : levels ≤ room) (name : String) :
    (required name form).Yields room fun a => Legible .whole room (write a) :=
  Yields.requiredAs h hroom [name]

theorem Yields.withDefault (hroom : levels ≤ room) (name : String) {default : α}
    (hdefault : Legible .whole room (write default)) :
    (withDefault name default form).Yields room fun a => Legible .whole room (write a) :=
  yields_default name hdefault fun hj ha => h.kept hroom hj ha

theorem Yields.list (hroom : levels < room) (name : String) :
    (Record.withDefault name [] form.list).Yields room fun items =>
      Legible .whole room (ofList write items) := by
  obtain ⟨room, rfl⟩ := Nat.exists_eq_add_of_lt hroom
  exact .withDefault (Form.restores_list h) hroom name (legible_array.2 nofun)

theorem Yields.keyMap (hroom : levels < room) (name : String) :
    (Record.withDefault name .empty form.keyMap).Yields room fun m =>
      Legible .whole room (ofKeyMap write m) := by
  obtain ⟨room, rfl⟩ := Nat.exists_eq_add_of_lt hroom
  exact .withDefault (Form.restores_keyMap h) hroom name (legible_object.2 nofun)

theorem Yields.optional (hroom : levels ≤ room) (name : String) :
    (optional name form).Yields room fun o => ∀ a ∈ o, Legible .whole room (write a) :=
  yields_default name nofun fun hj ho => Form.kept_orNull h hroom hj ho

end

end

end Record

namespace Form

section
variable {α β τ : Type} {write : α → Json} {levels : Nat}

/-- The outline of a field is the one that the record has for it, if it has only one. -/
theorem lookup_of_mem {outlines : List (String × Outline)}
    (hnames : (outlines.map Prod.fst).Nodup) {name : String} {o : Outline}
    (h : (name, o) ∈ outlines) : outlines.lookup name = some o := by
  induction outlines with
  | nil => cases h
  | cons first rest ih =>
    obtain ⟨key, o'⟩ := first
    obtain ⟨hkey, hrest⟩ := List.nodup_cons.1 hnames
    rcases List.mem_cons.1 h with heq | h
    · cases heq
      simp
    · have hmem : name ∈ rest.map Prod.fst := List.mem_map.2 ⟨_, h, rfl⟩
      have hne : name ≠ key := fun heq => hkey (heq ▸ hmem)
      rw [List.lookup_cons, beq_false_of_ne hne]
      exact ih hrest h

/-- The outline of a field that a record does not look at is the one for all others. -/
theorem field_of_not_knows {r : Record α} {name : String} (h : r.knows name = false)
    (others : Outline) : (Outline.record r.outlines others).field name = others := by
  have hnone : r.outlines.lookup name = none := by
    simp only [List.lookup_eq_none_iff, bne_iff_ne]
    simp only [Record.knows, List.any_eq_false, decide_eq_true_eq] at h
    exact fun p hp heq => h p hp heq.symm
  rw [Outline.field, hnone, Option.getD_none]

/-- Fields that a record does not look at are looked at as those of no record. -/
theorem fitsFields_of_not_knows {r : Record α} {fields : Fields}
    (h : ∀ f ∈ fields, r.knows f.1 = false) :
    (Outline.record r.outlines .whole).fitsFields fields = Outline.whole.fitsFields fields := by
  induction fields with
  | nil => rfl
  | cons f rest ih =>
    obtain ⟨hfirst, hrest⟩ := List.forall_mem_cons.1 h
    rw [Outline.fitsFields, field_of_not_knows hfirst, ih hrest]
    rfl

theorem finds_of_legible {r : Record α} (hnames : (r.outlines.map Prod.fst).Nodup)
    {others : Outline} {room : Nat} {fields : Fields}
    (h : ∀ f ∈ fields, Legible ((Outline.record r.outlines others).field f.1) room f.2) :
    r.Finds room fields := by
  intro f hf o ho
  have hfield : (Outline.record r.outlines others).field f.1 = o := by
    rw [Outline.field, lookup_of_mem hnames ho, Option.getD_some]
  exact hfield ▸ h f hf

/-- An object of which a record is read. -/
theorem kept_ofRecord {r : Record α} (hnames : (r.outlines.map Prod.fst).Nodup)
    (h : ∀ room, levels ≤ room → r.Yields room fun a => Legible .whole (room + 1) (write a))
    {room : Nat} {j : Json} {a : α} (hroom : levels + 1 ≤ room)
    (hj : Legible (ofRecord r).outline room j) (ha : (ofRecord r).read j = .ok a) :
    Legible .whole room (write a) := by
  cases hj with
  | skipped h => cases h
  | object hj => exact h _ (Nat.le_of_succ_le_succ hroom) _ _ (finds_of_legible hnames hj) ha
  | null | bool | text | integer | real | array => cases ha

/-- Fields of which one tells how the others are read. -/
theorem yields_tagged {tag : String} {form : Form τ} {cases : τ → Record α} {room : Nat}
    {P : α → Prop} (h : ∀ t, (cases t).Yields room P) {fields : Fields}
    (hfields : LegibleFields room fields) {a : α}
    (ha : (Record.tagged tag form cases).read fields = .ok a) : P a := by
  obtain ⟨t, -, ht⟩ := bind_eq_ok.1 ha
  exact h t _ _ (Record.finds_of_whole hfields _) ht

/-- An object one of whose fields tells how the others are read. -/
theorem kept_ofTagged {tag : String} {form : Form τ} {cases : τ → Record α}
    (h : ∀ room, levels ≤ room → ∀ t,
      (cases t).Yields room fun a => Legible .whole (room + 1) (write a))
    {room : Nat} {j : Json} {a : α} (hroom : levels + 1 ≤ room)
    (hj : Legible (ofWhole (Record.tagged tag form cases)).outline room j)
    (ha : (ofWhole (Record.tagged tag form cases)).read j = .ok a) :
    Legible .whole room (write a) := by
  cases hj with
  | skipped h => cases h
  | object hj => exact yields_tagged (h _ (Nat.le_of_succ_le_succ hroom)) hj ha
  | null | bool | text | integer | real | array => cases ha

/-- An object with fields of its own and others of which one tells how the rest are read. -/
theorem kept_ofRecordWith {own : Record (β → α)} {tag : String} {form : Form τ}
    {cases : τ → Record β} {P : Nat → β → Prop} (hnames : (own.outlines.map Prod.fst).Nodup)
    (hown : ∀ room, levels ≤ room →
      own.Yields room fun g => ∀ b, P room b → Legible .whole (room + 1) (write (g b)))
    (hcases : ∀ room, levels ≤ room → ∀ t, (cases t).Yields room (P room))
    {room : Nat} {j : Json} {a : α} (hroom : levels + 1 ≤ room)
    (hj : Legible (ofRecordWith own (Record.tagged tag form cases)).outline room j)
    (ha : (ofRecordWith own (Record.tagged tag form cases)).read j = .ok a) :
    Legible .whole room (write a) := by
  cases hj with
  | skipped h => cases h
  | @object _ room all hj =>
    have hroom := Nat.le_of_succ_le_succ hroom
    obtain ⟨g, hg, ha⟩ := bind_eq_ok.1 ha
    obtain ⟨b, hb, ha⟩ := bind_eq_ok.1 ha
    obtain rfl := Except.ok.inj ha
    have hothers : LegibleFields room (all.filter fun f => !own.knows f.1) := by
      intro f hf
      obtain ⟨hmem, hunknown⟩ := List.mem_filter.1 hf
      exact field_of_not_knows (by simpa using hunknown) .whole ▸ hj f hmem
    exact hown room hroom _ _ (finds_of_legible hnames hj) hg b
      (yields_tagged (hcases room hroom) hothers hb)
  | null | bool | text | integer | real | array => cases ha

end

end Form

end BranchingStory.Json
