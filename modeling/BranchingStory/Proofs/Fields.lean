import BranchingStory.Document.Value
import BranchingStory.Proofs.Failing
import BranchingStory.Proofs.Rereading
/-!
# Documents are read as what they were written from

`Form.Inverts` says of a type without doubles that its documents are read as what they were written
from, whole: the tree has the shape that the outline asks for, and what is read of it is what was
written. Records are read field by field, and every field that a writer may leave out is looked up
in one step.
-/

namespace BranchingStory.Json

/-! ## Types without doubles -/

/-- Documents of a type are read as what they were written from. They hold no double and are nested
at most so deep. -/
structure Form.Inverts {α : Type} (form : Form α) (write : α → Json) (levels : Nat) : Prop where
  ne_null : ∀ a, write a ≠ .null
  read : ∀ a, form.read (write a) = .ok a
  fits : ∀ a, form.outline.fits (write a)
  reals : ∀ a, (write a).reals = []
  depth : ∀ a, (write a).depth ≤ levels

/-- A tree without doubles stays as it is when doubles are replaced. -/
theorem Form.Inverts.withReals {α : Type} {form : Form α} {write : α → Json} {levels : Nat}
    (h : form.Inverts write levels) (f : Float → Json) (a : α) :
    (write a).withReals f = write a :=
  withReals_eq_self (write a) (by simp [h.reals a])

namespace Form

theorem inverts_text : text.Inverts .text 0 where
  ne_null _ := nofun
  read _ := rfl
  fits _ := rfl
  reals _ := rfl
  depth _ := Nat.le_refl 0

theorem inverts_boolean : boolean.Inverts .bool 0 where
  ne_null _ := nofun
  read _ := rfl
  fits _ := rfl
  reals _ := rfl
  depth _ := Nat.le_refl 0

/-- A word of a vocabulary that tells its words apart. -/
theorem inverts_word {α : Type} {all : List α} {word : α → String}
    (h : ∀ a, all.find? (word · = word a) = some a) :
    (Form.word all word).Inverts (fun a => .text (word a)) 0 where
  ne_null _ := nofun
  read a := by simp [Form.word, h a]
  fits _ := rfl
  reals _ := rfl
  depth _ := Nat.le_refl 0

/-- Whole numbers of a type that a range of 64 bits holds. -/
theorem inverts_integer {α : Type} {low high : Int} {ofInt : Int → α} {toInt : α → Int}
    (hlow : ∀ a, low ≤ toInt a) (hhigh : ∀ a, toInt a ≤ high)
    (hof : ∀ a, ofInt (toInt a) = a)
    (hmin : Int64.minValue.toInt ≤ low) (hmax : high < UInt64.size) :
    ((integerBetween low high).map ofInt).Inverts (fun a => .integer (toInt a)) 0 where
  ne_null _ := nofun
  read a := by
    simp only [map, integerBetween, if_pos (And.intro (hlow a) (hhigh a)), Except.map, hof]
  fits a := by
    have hlow := Int.le_trans hmin (hlow a)
    have hhigh := Int.lt_of_le_of_lt (hhigh a) hmax
    simp only [map, integerBetween, Outline.fits, Outline.isSkipped, Outline.isWord, hlow, hhigh,
      decide_true, Bool.not_false, Bool.and_self]
  reals _ := rfl
  depth _ := Nat.le_refl 0

theorem inverts_int64 : int64.Inverts ofInt64 0 :=
  inverts_integer Int64.minValue_le_toInt Int64.toInt_le Int64.ofInt_toInt (by decide) (by decide)

theorem inverts_int32 : int32.Inverts ofInt32 0 :=
  inverts_integer Int32.minValue_le_toInt Int32.toInt_le Int32.ofInt_toInt (by decide) (by decide)

theorem inverts_uint64 : uint64.Inverts ofUInt64 0 := by
  refine inverts_integer (fun n => Int.natCast_nonneg _) ?_ (fun n => ?_) (by decide) (by decide)
  · intro n
    have := UInt64.toNat_lt n
    simp only [UInt64.size]
    omega
  · rw [Int.toNat_natCast, UInt64.ofNat_toNat]

/-! ## Lists -/

theorem realsItems_map {α : Type} (write : α → Json) (items : List α) :
    realsItems (items.map write) = items.flatMap fun a => (write a).reals := by
  induction items with
  | nil => rfl
  | cons a rest ih => simp [realsItems, ih]

theorem withRealsItems_map {α : Type} (write : α → Json) (f : Float → Json) (items : List α) :
    withRealsItems f (items.map write) = items.map fun a => (write a).withReals f := by
  induction items with
  | nil => rfl
  | cons a rest ih => simp [withRealsItems, ih]

theorem fitsItems_map {α : Type} {o : Outline} {write : α → Json} {items : List α}
    (h : ∀ a ∈ items, o.fits (write a)) : o.fitsItems (items.map write) := by
  induction items with
  | nil => rfl
  | cons a rest ih =>
    simp only [List.map_cons, Outline.fitsItems, Bool.and_eq_true]
    exact ⟨h a (by simp), ih fun b hb => h b (by simp [hb])⟩

theorem depthItems_map_le {α : Type} {write : α → Json} {levels : Nat} {items : List α} :
    depthItems (items.map write) ≤ levels ↔ ∀ a ∈ items, (write a).depth ≤ levels := by
  induction items with
  | nil => simp [depthItems]
  | cons a rest ih =>
    simp only [List.map_cons, depthItems, Nat.max_le, ih, List.mem_cons, forall_eq_or_imp]

/-- Reading every item is reading the list. -/
theorem mapM_ok {α β : Type} {read : β → Reading α} {write : α → β} {items : List α}
    (h : ∀ a ∈ items, read (write a) = .ok a) : (items.map write).mapM read = .ok items := by
  induction items with
  | nil => rfl
  | cons a rest ih =>
    rw [List.map_cons, List.mapM_cons, h a (by simp), ih fun b hb => h b (by simp [hb])]
    rfl

theorem fits_list {α : Type} {form : Form α} {write : α → Json}
    (h : ∀ a, form.outline.fits (write a)) (items : List α) :
    form.list.outline.fits (ofList write items) := by
  have hitems : form.outline.fitsItems (items.map write) := fitsItems_map fun a _ => h a
  simpa [list, ofList, Outline.fits, Outline.isSkipped, Outline.isWord, Outline.item] using hitems

theorem inverts_list {α : Type} {form : Form α} {write : α → Json} {levels : Nat}
    (h : form.Inverts write levels) : form.list.Inverts (ofList write) (levels + 1) where
  ne_null _ := nofun
  read items := mapM_ok fun a _ => h.read a
  fits items := fits_list h.fits items
  reals items := by simp [ofList, reals, realsItems_map, h.reals]
  depth items := by
    have hitems : depthItems (items.map write) ≤ levels :=
      depthItems_map_le.2 fun a _ => h.depth a
    simpa [ofList, depth] using hitems

end Form

/-! ## Fields that may be left out -/

section LeftOut
variable {α : Type} (name : String) (write : α → Json)

@[simp] theorem realsFields_append (a b : Fields) :
    realsFields (a ++ b) = realsFields a ++ realsFields b := by
  induction a with
  | nil => rfl
  | cons field rest ih => simp [realsFields, ih]

@[simp] theorem depthFields_append (a b : Fields) :
    depthFields (a ++ b) = max (depthFields a) (depthFields b) := by
  induction a with
  | nil => simp [depthFields]
  | cons field rest ih => simp [depthFields, ih, Nat.max_assoc]

@[simp] theorem withRealsFields_append (f : Float → Json) (a b : Fields) :
    withRealsFields f (a ++ b) = withRealsFields f a ++ withRealsFields f b := by
  induction a with
  | nil => rfl
  | cons field rest ih => simp [withRealsFields, ih]

@[simp] theorem fitsFields_append (o : Outline) (a b : Fields) :
    o.fitsFields (a ++ b) = (o.fitsFields a && o.fitsFields b) := by
  induction a with
  | nil => rfl
  | cons field rest ih => simp [Outline.fitsFields, ih, Bool.and_assoc]

@[simp] theorem withRealsFields_optionalField (f : Float → Json) (o : Option α) :
    withRealsFields f (optionalField name write o) =
      optionalField name (fun a => (write a).withReals f) o := by
  cases o <;> rfl

/-- A field that is `null` or has the shape that is asked for. -/
@[simp] theorem fits_whole_ofOption (o : Option α) :
    Outline.whole.fits (ofOption write o) = o.all fun a => Outline.whole.fits (write a) := by
  cases o <;> rfl

@[simp] theorem fitsFields_optionalField (outline : Outline) (o : Option α) :
    outline.fitsFields (optionalField name write o) =
      o.all fun a => (outline.field name).fits (write a) := by
  cases o <;> simp [optionalField, Outline.fitsFields]

@[simp] theorem fitsFields_listField (outline : Outline) (items : List α) :
    outline.fitsFields (listField name write items) =
      (items.isEmpty || (outline.field name).fits (ofList write items)) := by
  cases items <;> simp [listField, Outline.fitsFields]

@[simp] theorem fitsFields_mapField (outline : Outline) (m : KeyMap α) :
    outline.fitsFields (mapField name write m) =
      (m.isEmpty || (outline.field name).fits (ofKeyMap write m)) := by
  cases h : m.isEmpty <;> simp [mapField, h, Outline.fitsFields]

@[simp] theorem fitsFields_trueField (outline : Outline) (b : Bool) :
    outline.fitsFields (trueField name b) = (!b || (outline.field name).fits (.bool true)) := by
  cases b <;> simp [trueField, Outline.fitsFields]

@[simp] theorem withRealsFields_listField (f : Float → Json) (items : List α) :
    withRealsFields f (listField name write items) =
      listField name (fun a => (write a).withReals f) items := by
  cases items with
  | nil => rfl
  | cons a rest =>
    simp only [listField, withRealsFields, ofList, withReals, Form.withRealsItems_map]

@[simp] theorem withRealsFields_trueField (f : Float → Json) (b : Bool) :
    withRealsFields f (trueField name b) = trueField name b := by
  cases b <;> rfl

@[simp] theorem realsFields_trueField (b : Bool) : realsFields (trueField name b) = [] := by
  cases b <;> rfl

@[simp] theorem depthFields_trueField (b : Bool) : depthFields (trueField name b) = 0 := by
  cases b <;> rfl

variable {write} {form : Form α} {levels : Nat}

theorem Form.Inverts.reals_optionalField (h : form.Inverts write levels) (o : Option α) :
    realsFields (optionalField name write o) = [] := by
  cases o <;> simp [optionalField, realsFields, h.reals]

theorem Form.Inverts.reals_listField (h : form.Inverts write levels) (items : List α) :
    realsFields (listField name write items) = [] := by
  cases items with
  | nil => rfl
  | cons a rest => simp [listField, realsFields, (Form.inverts_list h).reals]

theorem Form.Inverts.depth_optionalField (h : form.Inverts write levels) (room : Nat)
    (hle : levels ≤ room) (o : Option α) : depthFields (optionalField name write o) ≤ room := by
  cases o with
  | none => exact Nat.zero_le _
  | some a => simpa [optionalField, depthFields] using Nat.le_trans (h.depth a) hle

theorem Form.Inverts.depth_listField (h : form.Inverts write levels) (room : Nat)
    (hlt : levels < room) (items : List α) : depthFields (listField name write items) ≤ room := by
  cases items with
  | nil => exact Nat.zero_le _
  | cons a rest =>
    have hitems := Nat.le_trans ((Form.inverts_list h).depth (a :: rest)) hlt
    simpa [listField, depthFields] using hitems

end LeftOut

/-! ## Outlines of records -/

namespace Outline

@[simp] theorem fits_record (known : List (String × Outline)) (others : Outline)
    (fields : Fields) :
    (record known others).fits (.object fields) = (record known others).fitsFields fields := rfl

@[simp] theorem fitsFields_nil (o : Outline) : o.fitsFields [] = true := rfl

@[simp] theorem fitsFields_cons (o : Outline) (name : String) (value : Json) (rest : Fields) :
    o.fitsFields ((name, value) :: rest) = ((o.field name).fits value && o.fitsFields rest) := rfl

@[simp] theorem fits_whole_object (fields : Fields) :
    whole.fits (.object fields) = whole.fitsFields fields := rfl

@[simp] theorem field_whole (name : String) : whole.field name = whole := rfl

@[simp] theorem field_record_nil (others : Outline) (name : String) :
    (record [] others).field name = others := rfl

@[simp] theorem field_record_cons (key : String) (o : Outline) (known : List (String × Outline))
    (others : Outline) (name : String) :
    (record ((key, o) :: known) others).field name =
      if name = key then o else (record known others).field name := by
  simp only [field, List.lookup_cons]
  split <;> simp_all

/-- A value that may be `null` looks the same when it is not. -/
@[simp] theorem fits_orNull (o : Outline) (j : Json) : o.orNull.fits j = o.fits j := by
  cases o <;> try rfl
  cases j <;> rfl

end Outline

namespace Record

section
variable {α β : Type}

@[simp] theorem outlines_map (g : α → β) (r : Record α) : (g <$> r).outlines = r.outlines := rfl

@[simp] theorem outlines_seq (g : Record (α → β)) (r : Record α) :
    (g <*> r).outlines = g.outlines ++ r.outlines := rfl

@[simp] theorem outlines_requiredAs (names : List String) (form : Form α) :
    (requiredAs names form).outlines = names.map (·, form.outline) := rfl

@[simp] theorem outlines_required (name : String) (form : Form α) :
    (required name form).outlines = [(name, form.outline)] := rfl

@[simp] theorem outlines_withDefault (name : String) (default : α) (form : Form α) :
    (withDefault name default form).outlines = [(name, form.outline)] := rfl

@[simp] theorem outlines_optional (name : String) (form : Form α) :
    (optional name form).outlines = [(name, form.outline.orNull)] := rfl

end

end Record

namespace Fields

/-- The value of the only field, if there is one. -/
def only : Fields → Reading (Option Json)
  | [] => .ok none
  | [(_, value)] => .ok (some value)
  | _ => misfit "a field only once"

/-- The fields with one of the names. -/
def named (names : List String) (fields : Fields) : Fields :=
  fields.filter fun f => names.contains f.1

@[simp] theorem find_eq_only (fields : Fields) (names : List String) :
    fields.find names = only (named names fields) := rfl

section
variable {α : Type} (names : List String) (name : String) (write : α → Json)

@[simp] theorem only_nil : only [] = .ok none := rfl

@[simp] theorem only_single (value : Json) : only [(name, value)] = .ok (some value) := rfl

@[simp] theorem only_optionalField (o : Option α) :
    only (optionalField name write o) = .ok (o.map write) := by
  cases o <;> rfl

@[simp] theorem only_listField (items : List α) :
    only (listField name write items) =
      .ok (if items = [] then none else some (ofList write items)) := by
  cases items <;> simp [listField]

@[simp] theorem only_mapField (m : KeyMap α) :
    only (mapField name write m) =
      .ok (if m.isEmpty then none else some (ofKeyMap write m)) := by
  cases h : m.isEmpty <;> simp [mapField, h]

@[simp] theorem only_trueField (b : Bool) :
    only (trueField name b) = .ok (if b then some (.bool true) else none) := by
  cases b <;> rfl

@[simp] theorem named_nil : named names [] = [] := rfl

@[simp] theorem named_cons (value : Json) (rest : Fields) :
    named names ((name, value) :: rest) =
      if name ∈ names then (name, value) :: named names rest else named names rest := by
  simp [named, List.filter_cons]

@[simp] theorem named_append (a b : Fields) :
    named names (a ++ b) = named names a ++ named names b :=
  List.filter_append ..

@[simp] theorem named_optionalField (o : Option α) :
    named names (optionalField name write o) =
      if name ∈ names then optionalField name write o else [] := by
  cases o <;> simp [optionalField]

@[simp] theorem named_listField (items : List α) :
    named names (listField name write items) =
      if name ∈ names then listField name write items else [] := by
  cases items <;> simp [listField]

@[simp] theorem named_mapField (m : KeyMap α) :
    named names (mapField name write m) =
      if name ∈ names then mapField name write m else [] := by
  cases h : m.isEmpty <;> simp [mapField, h]

@[simp] theorem named_trueField (b : Bool) :
    named names (trueField name b) = if name ∈ names then trueField name b else [] := by
  cases b <;> simp [trueField]

end

end Fields

/-! ## Reading records -/

@[simp] theorem bind_ok {α β : Type} (a : α) (g : α → Reading β) :
    Except.bind (.ok a) g = g a := rfl

@[simp] theorem map_ok {α β : Type} (a : α) (g : α → β) :
    Except.map g (.ok a : Reading α) = .ok (g a) := rfl

@[simp] theorem isOk_ok {α : Type} (a : α) : (.ok a : Reading α).isOk = true := rfl

@[simp] theorem isOk_error {α : Type} (e : DocumentError) : (.error e : Reading α).isOk = false :=
  rfl

@[simp] theorem isOk_map {α β : Type} (x : Reading α) (g : α → β) : (x.map g).isOk = x.isOk := by
  cases x <;> rfl

/-- Two things are read one after the other just when each of them is. -/
theorem isOk_bind_map {α β γ : Type} (x : Reading α) (y : Reading β) (g : α → β → γ) :
    (x.bind fun a => y.map (g a)).isOk ↔ x.isOk ∧ y.isOk := by
  cases x <;> simp [Except.bind]

/-- What some items are read as, one by one. -/
theorem forall₂_of_mapM {α β : Type} {g : α → Reading β} {items : List α} {read : List β}
    (h : items.mapM g = .ok read) : List.Forall₂ (fun b a => g a = .ok b) read items := by
  induction items generalizing read with
  | nil =>
    cases h
    exact .nil
  | cons a rest ih =>
    rw [List.mapM_cons] at h
    obtain ⟨b, hb, hrest⟩ := bind_eq_ok.1 h
    obtain ⟨bs, hbs, hread⟩ := bind_eq_ok.1 hrest
    cases hread
    exact .cons hb (ih hbs)

/-- What is read of some items is read of one of them each. -/
theorem exists_of_mem_mapM {α β : Type} {g : β → Reading α} {items : List β} {read : List α}
    (h : items.mapM g = .ok read) {a : α} (ha : a ∈ read) : ∃ b ∈ items, g b = .ok a := by
  have hread := forall₂_of_mapM h
  clear h
  induction hread with
  | nil => cases ha
  | cons hb _ ih =>
    rcases List.mem_cons.1 ha with rfl | ha
    · exact ⟨_, List.mem_cons_self, hb⟩
    · obtain ⟨b, hmem, hb⟩ := ih ha
      exact ⟨b, List.mem_cons_of_mem _ hmem, hb⟩

/-- All items are read just when each of them is. -/
theorem isOk_mapM {α β : Type} {g : α → Reading β} {items : List α} :
    (items.mapM g).isOk ↔ ∀ a ∈ items, (g a).isOk := by
  induction items with
  | nil => simp [pure, Except.pure]
  | cons a rest ih =>
    simp only [List.mapM_cons, List.forall_mem_cons, ← ih, bind, pure, Except.pure]
    cases g a with
    | error e => simp [Except.bind]
    | ok b => cases rest.mapM g <;> simp [Except.bind]

namespace Form

/-- What is read of a field, given what is read where there is none. -/
def readOr {α : Type} (form : Form α) (missing : Reading α) : Option Json → Reading α
  | some value => form.read value
  | none => missing

section
variable {α : Type} {form : Form α} {write : α → Json} {levels : Nat}

@[simp] theorem readOr_some (missing : Reading α) (value : Json) :
    form.readOr missing (some value) = form.read value := rfl

/-- What is written of a value is not `null`, and the value is read of it. -/
theorem read_orNull (hne : ∀ a, write a ≠ .null) (hread : ∀ a, form.read (write a) = .ok a)
    (a : α) : form.orNull.read (write a) = .ok (some a) := by
  have hne := hne a
  simp only [orNull, hread a]
  rfl

theorem readOr_map (hne : ∀ a, write a ≠ .null) (hread : ∀ a, form.read (write a) = .ok a)
    (o : Option α) : form.orNull.readOr (.ok none) (o.map write) = .ok o := by
  cases o with
  | none => rfl
  | some a => exact read_orNull hne hread a

/-- A value comes back where `null` may stand for none. -/
theorem read_ofOption (hne : ∀ a, write a ≠ .null) (hread : ∀ a, form.read (write a) = .ok a)
    (o : Option α) : form.orNull.read (ofOption write o) = .ok o := by
  cases o with
  | none => rfl
  | some a => exact read_orNull hne hread a

theorem readOr_list (hread : ∀ a, form.read (write a) = .ok a) (items : List α) :
    form.list.readOr (.ok []) (if items = [] then none else some (ofList write items)) =
      .ok items := by
  split
  · rename_i hnil
    rw [hnil]
    rfl
  · exact mapM_ok fun a _ => hread a

theorem Inverts.readOr_map (h : form.Inverts write levels) (o : Option α) :
    form.orNull.readOr (.ok none) (o.map write) = .ok o :=
  Form.readOr_map h.ne_null h.read o

theorem Inverts.read_ofOption (h : form.Inverts write levels) (o : Option α) :
    form.orNull.read (ofOption write o) = .ok o :=
  Form.read_ofOption h.ne_null h.read o

theorem Inverts.readOr_list (h : form.Inverts write levels) (items : List α) :
    form.list.readOr (.ok []) (if items = [] then none else some (ofList write items)) =
      .ok items :=
  Form.readOr_list h.read items

@[simp] theorem readOr_true (b : Bool) :
    boolean.readOr (.ok false) (if b then some (.bool true) else none) = .ok b := by
  cases b <;> rfl

end

end Form

namespace Record

section
variable {α β : Type} (fields : Fields)

@[simp] theorem read_map (g : α → β) (r : Record α) :
    (g <$> r).read fields = (r.read fields).map g := rfl

@[simp] theorem read_seq (g : Record (α → β)) (r : Record α) :
    (g <*> r).read fields = (g.read fields).bind fun g => (r.read fields).map g := rfl

@[simp] theorem read_pure (a : α) : (pure a : Record α).read fields = .ok a := rfl

@[simp] theorem read_tagged {τ : Type} (tag : String) (form : Form τ) (cases : τ → Record α) :
    (tagged tag form cases).read fields =
      ((required tag form).read fields).bind fun t => (cases t).read fields := rfl

@[simp] theorem read_requiredAs (names : List String) (form : Form α) :
    (requiredAs names form).read fields =
      (fields.find names).bind (form.readOr (misfit "a field that is missing")) := by
  simp only [requiredAs, bind]
  congr

@[simp] theorem read_required (name : String) (form : Form α) :
    (required name form).read fields =
      (fields.find [name]).bind (form.readOr (misfit "a field that is missing")) :=
  read_requiredAs fields [name] form

@[simp] theorem read_withDefault (name : String) (default : α) (form : Form α) :
    (withDefault name default form).read fields =
      (fields.find [name]).bind (form.readOr (.ok default)) := by
  simp only [withDefault, bind]
  congr

@[simp] theorem read_optional (name : String) (form : Form α) :
    (optional name form).read fields =
      (fields.find [name]).bind (form.orNull.readOr (.ok none)) :=
  read_withDefault fields name none form.orNull

end

end Record

end BranchingStory.Json
