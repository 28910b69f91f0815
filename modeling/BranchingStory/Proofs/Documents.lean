import BranchingStory.Document.Playthrough
import BranchingStory.Proofs.Fields
import Mathlib.Data.List.Forall2
/-!
# What a save is read as

The parts of a save are read as what they were written from, but for the numbers among the values
and the coordinates of the images: the text holds those as numerals, and what a numeral is read as
is not always the double it was written for. Each `read_withReals` tells what comes of a part whose
doubles were replaced; with the doubles left alone it says that reading undoes writing.
-/

namespace BranchingStory

open Json (Fields Form Record Reading)

/-! ## Vocabularies -/

theorem NodeType.inverts : NodeType.form.Inverts (fun t => .text (word t)) 0 :=
  Form.inverts_word (by intro t; cases t <;> rfl)

theorem Alignment.inverts : Alignment.form.Inverts toJson 0 :=
  Form.inverts_word (by intro a; cases a <;> rfl)

theorem EntranceEffect.inverts : EntranceEffect.form.Inverts toJson 0 :=
  Form.inverts_word (by intro e; cases e <;> rfl)

theorem ExitEffect.inverts : ExitEffect.form.Inverts toJson 0 :=
  Form.inverts_word (by intro e; cases e <;> rfl)

theorem Status.inverts : Status.form.Inverts toJson 0 :=
  Form.inverts_word (by intro s; cases s <;> rfl)

/-! ## The backlog -/

theorem SeenImage.inverts : SeenImage.form.Inverts toJson 2 where
  ne_null _ := nofun
  read i := by
    simp [form, toJson, Form.ofRecord, Form.fields, bind, Form.inverts_text.read,
      Form.inverts_boolean.read, EntranceEffect.inverts.readOr_map,
      EntranceEffect.inverts.readOr_list, Form.inverts_uint64.readOr_map]
  fits i := by
    simp [form, toJson, Form.ofRecord, Form.inverts_text.fits, Form.inverts_boolean.fits,
      EntranceEffect.inverts.fits, Form.inverts_uint64.fits,
      (Form.inverts_list EntranceEffect.inverts).fits]
  reals i := by
    simp [toJson, Json.reals, Json.realsFields, EntranceEffect.inverts.reals_optionalField,
      EntranceEffect.inverts.reals_listField, Form.inverts_uint64.reals_optionalField]
  depth i := by
    simp [toJson, Json.depth, Json.depthFields, EntranceEffect.inverts.depth_optionalField,
      EntranceEffect.inverts.depth_listField, Form.inverts_uint64.depth_optionalField]

theorem Beat.inverts : Beat.form.Inverts toJson 3 where
  ne_null _ := nofun
  read b := by
    simp [form, toJson, Form.ofRecord, Form.fields, bind, Form.inverts_text.read,
      NodeType.inverts.read, Form.inverts_text.readOr_map, Form.inverts_int64.read,
      SeenImage.inverts.readOr_map]
  fits b := by
    simp [form, toJson, Form.ofRecord, Form.inverts_text.fits, NodeType.inverts.fits,
      Form.inverts_int64.fits, SeenImage.inverts.fits]
  reals b := by
    simp [toJson, Json.reals, Json.realsFields, Form.inverts_text.reals_optionalField,
      Form.inverts_int64.reals, SeenImage.inverts.reals_optionalField]
  depth b := by
    refine Nat.succ_le_succ ?_
    simp [Json.depth, Json.depthFields, Form.inverts_text.depth_optionalField,
      SeenImage.inverts.depth_optionalField, Json.ofInt64]

theorem Backlog.inverts : Backlog.form.Inverts toJson 4 where
  ne_null _ := nofun
  read b := by
    have hbeats := (Form.inverts_list Beat.inverts).read b.beats
    simp only [form, Form.map, toJson, hbeats, Json.map_ok]
  fits b := (Form.inverts_list Beat.inverts).fits b.beats
  reals b := (Form.inverts_list Beat.inverts).reals b.beats
  depth b := (Form.inverts_list Beat.inverts).depth b.beats

/-! ## Images -/

/-- What is read where a coordinate was written. -/
def rereadCoordinate (f : Float → Json) : Option Float → Reading (Option Float)
  | none => .ok none
  | some x => Form.double.orNull.read (f x)

theorem readOr_coordinate (f : Float → Json) (x : Option Float) :
    Form.double.orNull.readOr (.ok none) (x.map f) = rereadCoordinate f x := by
  cases x <;> rfl

/-- A coordinate is read as itself where its double is. -/
theorem rereadCoordinate_of_eq {f : Float → Json} {x : Option Float}
    (h : ∀ y ∈ x, f y = .real y) : rereadCoordinate f x = .ok x := by
  cases x with
  | none => rfl
  | some y =>
    rw [rereadCoordinate, h y rfl]
    rfl

namespace StageImage

/-- The image with other coordinates. -/
def withCoordinates (i : StageImage) (x y : Option Float) : StageImage :=
  { i with picture.x := x, picture.y := y }

/-- The coordinates of an image. -/
def coordinates (i : StageImage) : List Float := i.picture.x.toList ++ i.picture.y.toList

theorem read_withReals (f : Float → Json) (i : StageImage) :
    form.read (i.toJson.withReals f) =
      (rereadCoordinate f i.picture.x).bind fun x =>
        (rereadCoordinate f i.picture.y).map fun y => i.withCoordinates x y := by
  have halignment := Alignment.inverts.withReals f
  have hentrance := EntranceEffect.inverts.withReals f
  have hexit := ExitEffect.inverts.withReals f
  have horder := Form.inverts_int32.withReals f
  have hnatural := Form.inverts_uint64.withReals f
  simp [form, toJson, Picture.record, Picture.toFields, Form.ofRecord, Form.fields, bind,
    Json.withReals, Json.withRealsFields, halignment, hentrance, hexit, horder, hnatural,
    Form.inverts_text.read, Form.inverts_uint64.read, Form.inverts_int32.read,
    Alignment.inverts.read, Form.inverts_boolean.readOr_map, Form.inverts_text.readOr_map,
    EntranceEffect.inverts.readOr_map, EntranceEffect.inverts.readOr_list,
    ExitEffect.inverts.readOr_map, Form.inverts_uint64.readOr_map, readOr_coordinate]
  cases rereadCoordinate f i.picture.x with
  | error e => rfl
  | ok x => cases rereadCoordinate f i.picture.y <;> rfl

theorem fits_toJson (i : StageImage) : form.outline.fits i.toJson := by
  have hreal : ∀ x : Float, Form.double.outline.fits (.real x) := fun _ => rfl
  unfold form Form.ofRecord toJson
  rw [Json.Outline.fits_record]
  simp [Picture.record, Picture.toFields, hreal, Form.inverts_text.fits,
    Form.inverts_uint64.fits, Form.inverts_int32.fits,
    Form.inverts_boolean.fits, Alignment.inverts.fits, EntranceEffect.inverts.fits,
    (Form.inverts_list EntranceEffect.inverts).fits, ExitEffect.inverts.fits]

theorem reals_toJson (i : StageImage) : i.toJson.reals = i.coordinates := by
  have hreal (name : String) (x : Option Float) :
      Json.realsFields (Json.optionalField name .real x) = x.toList := by
    cases x <;> rfl
  simp [toJson, Picture.toFields, coordinates, Json.reals, Json.realsFields, hreal,
    Form.inverts_uint64.reals, Form.inverts_int32.reals, Alignment.inverts.reals,
    Form.inverts_boolean.reals_optionalField, Form.inverts_text.reals_optionalField,
    EntranceEffect.inverts.reals_optionalField, EntranceEffect.inverts.reals_listField,
    Form.inverts_uint64.reals_optionalField, ExitEffect.inverts.reals_optionalField]

theorem depth_toJson_le (i : StageImage) : i.toJson.depth ≤ 2 := by
  have hreal (name : String) (x : Option Float) :
      Json.depthFields (Json.optionalField name .real x) ≤ 1 := by
    cases x <;> simp [Json.optionalField, Json.depthFields, Json.depth]
  simp only [toJson, Picture.toFields, List.cons_append, List.nil_append, List.append_assoc,
    Json.ofUInt64, Json.ofInt32, Alignment.toJson, Json.depth, Json.depthFields,
    Json.depthFields_append, Json.depthFields_trueField, hreal,
    Form.inverts_boolean.depth_optionalField, Form.inverts_text.depth_optionalField,
    EntranceEffect.inverts.depth_optionalField, EntranceEffect.inverts.depth_listField,
    Form.inverts_uint64.depth_optionalField, ExitEffect.inverts.depth_optionalField,
    Nat.max_le, Nat.zero_le, Nat.reduceLeDiff, Nat.lt_add_one, and_self]

end StageImage

namespace Scene

theorem read_withReals (f : Float → Json) (s : Scene) :
    form.read (s.toJson.withReals f) =
      (s.images.mapM fun i => StageImage.form.read (i.toJson.withReals f)).map mk := by
  simp only [form, Form.map, Form.list, toJson, Json.ofList, Json.withReals,
    Form.withRealsItems_map, List.mapM_map]
  rfl

theorem fits_toJson (s : Scene) : form.outline.fits s.toJson :=
  Form.fits_list StageImage.fits_toJson s.images

theorem reals_toJson (s : Scene) : s.toJson.reals = s.images.flatMap (·.coordinates) := by
  simp only [toJson, Json.ofList, Json.reals, Form.realsItems_map, StageImage.reals_toJson]

theorem depth_toJson_le (s : Scene) : s.toJson.depth ≤ 3 := by
  have hitems : Json.depthItems (s.images.map StageImage.toJson) ≤ 2 :=
    Form.depthItems_map_le.2 fun i _ => i.depth_toJson_le
  exact Nat.succ_le_succ hitems

/-- A coordinate is read when it is a number, or `null` in place of one. -/
theorem isOk_rereadCoordinate {x : Option Float} (h : ∀ y ∈ x, (Json.reread? y).isSome) :
    (rereadCoordinate Json.rereadReal x).isOk := by
  cases x with
  | none => rfl
  | some y =>
    obtain ⟨j, hj⟩ := Option.isSome_iff_exists.1 (h y rfl)
    rw [rereadCoordinate, Json.rereadReal, hj, Option.getD_some]
    obtain rfl | ⟨z, rfl⟩ := Json.reread?_eq_null_or_real hj <;> rfl

theorem isOk_read_withReals {s : Scene}
    (h : ∀ i ∈ s.images, ∀ x ∈ i.coordinates, (Json.reread? x).isSome) :
    (form.read (s.toJson.withReals Json.rereadReal)).isOk := by
  rw [read_withReals, Json.isOk_map, Json.isOk_mapM]
  intro i hi
  have hcoordinates := h i hi
  simp only [StageImage.coordinates, List.forall_mem_append, Option.mem_toList] at hcoordinates
  rw [StageImage.read_withReals, Json.isOk_bind_map]
  exact ⟨isOk_rereadCoordinate hcoordinates.1, isOk_rereadCoordinate hcoordinates.2⟩

/-- Nothing but coordinates changes. -/
theorem of_read_withReals {f : Float → Json} {s s' : Scene}
    (h : form.read (s.toJson.withReals f) = .ok s') :
    List.Forall₂ (fun i' i => ∃ x y, i' = StageImage.withCoordinates i x y) s'.images s.images := by
  rw [read_withReals] at h
  obtain ⟨images, himages, rfl⟩ := map_eq_ok.1 h
  refine (Json.forall₂_of_mapM himages).imp fun i' i hi => ?_
  rw [StageImage.read_withReals] at hi
  obtain ⟨x, -, hy⟩ := bind_eq_ok.1 hi
  obtain ⟨y, -, rfl⟩ := map_eq_ok.1 hy
  exact ⟨x, y, rfl⟩

end Scene

/-! ## Values -/

namespace Value

mutual

/-- The numbers of a value, those of the items of a list included. -/
def numbers : Value → List Float
  | number x => [x]
  | list items => numbersOf items
  | _ => []

/-- The numbers of some values. -/
def numbersOf : List Value → List Float
  | [] => []
  | item :: rest => item.numbers ++ numbersOf rest

end

mutual

/-- How deep lists are nested in a value. -/
def depth : Value → Nat
  | list items => depthOf items + 1
  | _ => 0

/-- How deep lists are nested in some values. -/
def depthOf : List Value → Nat
  | [] => 0
  | item :: rest => max item.depth (depthOf rest)

end

mutual

theorem reals_toJson : ∀ v : Value, v.toJson.reals = v.numbers
  | bool _ | number _ | text _ => rfl
  | list items => reals_toJsons items

theorem reals_toJsons : ∀ items : List Value, Json.realsItems (toJsons items) = numbersOf items
  | [] => rfl
  | item :: rest => by rw [toJsons, Json.realsItems, reals_toJson, reals_toJsons, numbersOf]

end

mutual

theorem depth_toJson : ∀ v : Value, v.toJson.depth = v.depth
  | bool _ | number _ | text _ => rfl
  | list items => congrArg (· + 1) (depth_toJsons items)

theorem depth_toJsons : ∀ items : List Value, Json.depthItems (toJsons items) = depthOf items
  | [] => rfl
  | item :: rest => by rw [toJsons, Json.depthItems, depth_toJson, depth_toJsons, depthOf]

end

mutual

theorem fits_toJson : ∀ v : Value, Json.Outline.whole.fits v.toJson
  | bool _ | number _ | text _ => rfl
  | list items => fits_toJsons items

theorem fits_toJsons : ∀ items : List Value, Json.Outline.whole.fitsItems (toJsons items)
  | [] => rfl
  | item :: rest => by
    simp only [toJsons, Json.Outline.fitsItems, fits_toJson item, fits_toJsons rest, Bool.and_self]

end

mutual

/-- A value is read as itself when its numbers stay. -/
theorem ofTree_toJson : ∀ v : Value, ofTree v.toJson = .ok v
  | bool _ | number _ | text _ => rfl
  | list items => by
    rw [toJson, ofTree, ofTrees_toJsons]
    rfl

theorem ofTrees_toJsons : ∀ items : List Value, ofTrees (toJsons items) = .ok items
  | [] => rfl
  | item :: rest => by
    simp only [toJsons, ofTrees, ofTree_toJson item, ofTrees_toJsons rest]
    rfl

end

mutual

/-- A value is read after its numbers were replaced just when each of them is. -/
theorem isOk_ofTree_withReals (f : Float → Json) : ∀ v : Value,
    (ofTree (v.toJson.withReals f)).isOk ↔ ∀ x ∈ v.numbers, (ofTree (f x)).isOk
  | bool _ | text _ => by simp [toJson, Json.withReals, ofTree, numbers, Except.isOk, Except.toBool]
  | number x => by simp [toJson, Json.withReals, numbers]
  | list items => by
    have hitems := isOk_ofTrees_withReals f items
    simp only [toJson, Json.withReals, ofTree, numbers]
    rw [← hitems]
    cases ofTrees (Json.withRealsItems f (toJsons items)) <;> rfl

theorem isOk_ofTrees_withReals (f : Float → Json) : ∀ items : List Value,
    (ofTrees (Json.withRealsItems f (toJsons items))).isOk ↔
      ∀ x ∈ numbersOf items, (ofTree (f x)).isOk
  | [] => by simp [toJsons, Json.withRealsItems, ofTrees, numbersOf, Except.isOk, Except.toBool]
  | item :: rest => by
    simp only [toJsons, Json.withRealsItems, ofTrees, numbersOf, List.forall_mem_append]
    rw [← isOk_ofTree_withReals f item, ← isOk_ofTrees_withReals f rest]
    cases ofTree (item.toJson.withReals f) with
    | error e => simp [bind, Except.bind, Except.isOk, Except.toBool]
    | ok v =>
      cases ofTrees (Json.withRealsItems f (toJsons rest)) <;>
        simp [bind, Except.bind, pure, Except.pure, Except.isOk, Except.toBool]

end

end Value

/-! ## Maps -/

namespace KeyMap

variable {α : Type}

/-- A key after all others goes to the end. -/
theorem insertEntry_of_forall_lt {key : String} {value : α} {entries : List (String × α)}
    (h : ∀ e ∈ entries, e.1 < key) : insertEntry key value entries = entries ++ [(key, value)] := by
  induction entries with
  | nil => rfl
  | cons e rest ih =>
    have he : e.1 < key := h e (by simp)
    have hnot : ¬ key < e.1 := fun hlt => String.lt_irrefl _ (String.lt_trans he hlt)
    have hne : key ≠ e.1 := fun heq => String.lt_irrefl _ (heq ▸ he)
    simp only [insertEntry, if_neg hnot, if_neg hne, List.cons_append]
    rw [ih fun d hd => h d (by simp [hd])]

/-- Entries in order are the entries of their map. -/
theorem entries_ofList {entries : List (String × α)} (h : entries.Pairwise (fun a b => a.1 < b.1)) :
    (ofList entries).entries = entries := by
  have hfold : ∀ (rest : List (String × α)) (m : KeyMap α),
      (m.entries ++ rest).Pairwise (fun a b => a.1 < b.1) →
      (rest.foldl (fun m e => m.insert e.1 e.2) m).entries = m.entries ++ rest := by
    intro rest
    induction rest with
    | nil => simp
    | cons e rest ih =>
      intro m hm
      have hinsert : (m.insert e.1 e.2).entries = m.entries ++ [e] :=
        insertEntry_of_forall_lt fun d hd => (List.pairwise_append.1 hm).2.2 d hd e (by simp)
      rw [List.foldl_cons, ih (m.insert e.1 e.2) (by simpa [hinsert] using hm), hinsert]
      simp
  exact hfold entries empty h

theorem ofList_entries (m : KeyMap α) : ofList m.entries = m := by
  have h := entries_ofList m.sorted
  cases m
  cases hm : ofList _
  simp_all

/-- The entries of a map are among those it was made of. -/
theorem mem_of_mem_ofList {entries : List (String × α)} {e : String × α}
    (h : e ∈ (ofList entries).entries) : e ∈ entries := by
  have hfold : ∀ (rest : List (String × α)) (m : KeyMap α),
      e ∈ (rest.foldl (fun m e => m.insert e.1 e.2) m).entries → e ∈ m.entries ∨ e ∈ rest := by
    intro rest
    induction rest with
    | nil => exact fun _ h => .inl h
    | cons d rest ih =>
      intro m h
      rcases ih _ h with h | h
      · rcases mem_insertEntry h with rfl | h
        · exact .inr List.mem_cons_self
        · exact .inl h
      · exact .inr (List.mem_cons_of_mem _ h)
  exact (hfold entries .empty h).resolve_left nofun

end KeyMap

/-! ## The store -/

/-- What the values of a map are read as after their numbers were replaced. -/
def rereadValues (f : Float → Json) (m : KeyMap Value) : Reading (KeyMap Value) :=
  Value.form.keyMap.read ((Json.ofKeyMap Value.toJson m).withReals f)

theorem rereadValues_eq (f : Float → Json) (m : KeyMap Value) :
    rereadValues f m =
      (m.entries.mapM fun e => (Value.ofTree (e.2.toJson.withReals f)).map (Prod.mk e.1)).map
        KeyMap.ofList := by
  have hfields : ∀ entries : List (String × Value),
      Json.withRealsFields f (entries.map fun e => (e.1, e.2.toJson)) =
        entries.map fun e => (e.1, e.2.toJson.withReals f) := by
    intro entries
    induction entries with
    | nil => rfl
    | cons e rest ih => simp [Json.withRealsFields, ih]
  simp only [rereadValues, Form.keyMap, Json.ofKeyMap, Json.withReals, hfields, Form.fields, bind,
    Json.bind_ok, List.mapM_map]
  rfl

/-- A map is read as itself when its numbers stay. -/
theorem rereadValues_real (m : KeyMap Value) : rereadValues .real m = .ok m := by
  have hentries : ∀ entries : List (String × Value),
      (entries.mapM fun e => (Value.ofTree (e.2.toJson.withReals .real)).map (Prod.mk e.1)) =
        .ok entries := by
    intro entries
    induction entries with
    | nil => rfl
    | cons e rest ih =>
      rw [List.mapM_cons, ih, Json.withReals_eq_self e.2.toJson fun _ _ => rfl, e.2.ofTree_toJson]
      rfl
  rw [rereadValues_eq, hentries, Json.map_ok, KeyMap.ofList_entries]

theorem isOk_rereadValues (f : Float → Json) (m : KeyMap Value) :
    (rereadValues f m).isOk ↔ ∀ e ∈ m.entries, ∀ x ∈ e.2.numbers, (Value.ofTree (f x)).isOk := by
  simp only [rereadValues_eq, Json.isOk_map, Json.isOk_mapM, Value.isOk_ofTree_withReals]

theorem fits_ofKeyMap {α : Type} {form : Form α} {write : α → Json}
    (h : ∀ a, form.outline.fits (write a)) (m : KeyMap α) :
    form.keyMap.outline.fits (Json.ofKeyMap write m) := by
  have hfields : ∀ entries : List (String × α),
      (Json.Outline.record [] form.outline).fitsFields
        (entries.map fun e => (e.1, write e.2)) := by
    intro entries
    induction entries with
    | nil => rfl
    | cons e rest ih => simp [h, ih]
  exact hfields m.entries

theorem reals_ofKeyMap (m : KeyMap Value) :
    (Json.ofKeyMap Value.toJson m).reals = m.entries.flatMap (·.2.numbers) := by
  have hfields : ∀ entries : List (String × Value),
      Json.realsFields (entries.map fun e => (e.1, e.2.toJson)) =
        entries.flatMap (·.2.numbers) := by
    intro entries
    induction entries with
    | nil => rfl
    | cons e rest ih => simp [Json.realsFields, Value.reals_toJson, ih]
  exact hfields m.entries

theorem depth_ofKeyMap_le {m : KeyMap Value} {levels : Nat} :
    (Json.ofKeyMap Value.toJson m).depth ≤ levels + 1 ↔ ∀ e ∈ m.entries, e.2.depth ≤ levels := by
  have hfields : ∀ entries : List (String × Value),
      Json.depthFields (entries.map fun e => (e.1, e.2.toJson)) ≤ levels ↔
        ∀ e ∈ entries, e.2.depth ≤ levels := by
    intro entries
    induction entries with
    | nil => simp [Json.depthFields]
    | cons e rest ih =>
      simp only [List.map_cons, Json.depthFields, Value.depth_toJson, Nat.max_le, ih,
        List.mem_cons, forall_eq_or_imp]
  rw [← hfields]
  exact Nat.succ_le_succ_iff

namespace Store

/-- The values of the variables and of the flags. -/
def held (s : Store) : List Value := s.values.entries.map (·.2) ++ s.flags.entries.map (·.2)

theorem read_withReals (f : Float → Json) (s : Store) :
    form.read (s.toJson.withReals f) =
      (rereadValues f s.values).bind fun values =>
        (rereadValues f s.flags).map fun flags => ⟨values, flags, s.choicesMade⟩ := by
  have hchoices := (Form.inverts_list Form.inverts_text).withReals f
  have hvalues (m : KeyMap Value) : Value.form.keyMap.read
      ((Json.ofKeyMap Value.toJson m).withReals f) = rereadValues f m := rfl
  simp [form, toJson, Form.ofRecord, Form.fields, bind, Json.withReals, Json.withRealsFields,
    hchoices, (Form.inverts_list Form.inverts_text).read, hvalues]
  cases rereadValues f s.values with
  | error e => rfl
  | ok values => cases rereadValues f s.flags <;> rfl

theorem isOk_read_withReals (f : Float → Json) (s : Store) :
    (form.read (s.toJson.withReals f)).isOk ↔
      ∀ v ∈ s.held, ∀ x ∈ v.numbers, (Value.ofTree (f x)).isOk := by
  rw [read_withReals, Json.isOk_bind_map, isOk_rereadValues, isOk_rereadValues]
  simp only [held, List.forall_mem_append, List.forall_mem_map]

theorem fits_toJson (s : Store) : form.outline.fits s.toJson := by
  unfold form Form.ofRecord toJson
  rw [Json.Outline.fits_record]
  simp [@fits_ofKeyMap _ Value.form _ Value.fits_toJson,
    (Form.inverts_list Form.inverts_text).fits]

theorem reals_toJson (s : Store) : s.toJson.reals = s.held.flatMap (·.numbers) := by
  simp [toJson, held, Json.reals, Json.realsFields, reals_ofKeyMap,
    (Form.inverts_list Form.inverts_text).reals, List.flatMap_map]

theorem depth_toJson_le {s : Store} {levels : Nat} :
    s.toJson.depth ≤ levels + 2 ↔ ∀ v ∈ s.held, v.depth ≤ levels := by
  have hchoices : (Json.ofList .text s.choicesMade).depth ≤ levels + 1 :=
    Nat.le_trans ((Form.inverts_list Form.inverts_text).depth _) (by omega)
  simp only [toJson, held, Json.depth, Json.depthFields, Nat.add_le_add_iff_right, Nat.max_le,
    hchoices, depth_ofKeyMap_le, List.forall_mem_append, List.forall_mem_map, Nat.zero_le, and_true]

end Store

/-! ## Playthroughs -/

namespace Playthrough

theorem read_withReals (f : Float → Json) (p : Playthrough) :
    form.read (p.toJson.withReals f) =
      (Store.form.read (p.store.toJson.withReals f)).bind fun store =>
        (Scene.form.read (p.scene.toJson.withReals f)).map fun scene =>
          { p with store, scene } := by
  have hbacklog := Backlog.inverts.withReals f
  have hstatus := Status.inverts.withReals f
  have htime := Form.inverts_int64.withReals f
  have hindex := Form.inverts_uint64.withReals f
  simp [form, toJson, Form.ofRecord, Form.fields, bind, Json.withReals, Json.withRealsFields,
    hbacklog, hstatus, htime, hindex, Form.inverts_text.read, Backlog.inverts.read,
    Form.inverts_int64.read, Form.inverts_uint64.readOr_map, Form.inverts_text.readOr_map,
    Status.inverts.read]
  cases Store.form.read (p.store.toJson.withReals f) with
  | error e => rfl
  | ok store => cases Scene.form.read (p.scene.toJson.withReals f) <;> rfl

theorem fits_toJson (p : Playthrough) : form.outline.fits p.toJson := by
  unfold form Form.ofRecord toJson
  rw [Json.Outline.fits_record]
  simp [Form.inverts_text.fits, Store.fits_toJson, Backlog.inverts.fits, Scene.fits_toJson,
    Form.inverts_int64.fits, Form.inverts_uint64.fits, Status.inverts.fits]

theorem reals_toJson (p : Playthrough) :
    p.toJson.reals =
      p.store.held.flatMap (·.numbers) ++ p.scene.images.flatMap (·.coordinates) := by
  simp [toJson, Json.reals, Json.realsFields, Store.reals_toJson, Scene.reals_toJson,
    Backlog.inverts.reals, Form.inverts_int64.reals, Form.inverts_uint64.reals_optionalField,
    Form.inverts_text.reals_optionalField, Status.inverts.reals]

/-- Three levels are the save, the store and its maps; no other part is nested as deep. -/
theorem depth_toJson_le {p : Playthrough} {levels : Nat} (hlevels : 2 ≤ levels) :
    p.toJson.depth ≤ levels + 3 ↔ ∀ v ∈ p.store.held, v.depth ≤ levels := by
  have hbacklog : p.backlog.toJson.depth ≤ levels + 2 :=
    Nat.le_trans (Backlog.inverts.depth _) (by omega)
  have hscene : p.scene.toJson.depth ≤ levels + 2 := Nat.le_trans p.scene.depth_toJson_le (by omega)
  rw [← Store.depth_toJson_le]
  simp only [toJson, List.cons_append, List.nil_append, List.append_assoc, Json.ofInt64,
    Status.toJson, Json.depth, Json.depthFields, Json.depthFields_append,
    Form.inverts_uint64.depth_optionalField, Form.inverts_text.depth_optionalField, hbacklog,
    hscene, Nat.add_le_add_iff_right, Nat.max_le, Nat.zero_le, true_and, and_true]

/-- The text of a save is read as its tree is, or refused. -/
theorem parse_text (p : Playthrough) :
    if p.toJson.readable Json.maxDepth then
      parse p.text = form.read (p.toJson.withReals Json.rereadReal)
    else (parse p.text).isOk = false := by
  have hread : if p.toJson.readable Json.maxDepth then
        Json.read form.outline p.toJson.compact = .ok p.toJson.reread
      else ∃ m, Json.read form.outline p.toJson.compact = .error m :=
    Json.read_compact (by exact trivial) p.fits_toJson
  split
  · rename_i hreadable
    rw [if_pos hreadable] at hread
    rw [parse, Form.parse, text, hread]
    rfl
  · rename_i hreadable
    rw [if_neg hreadable] at hread
    obtain ⟨m, hm⟩ := hread
    rw [parse, Form.parse, text, hm]
    rfl

/-- With the doubles left alone, reading undoes writing. -/
theorem read_toJson (p : Playthrough) : form.read p.toJson = .ok p := by
  have hstore : Store.form.read (p.store.toJson.withReals .real) = .ok p.store := by
    rw [Store.read_withReals, rereadValues_real, rereadValues_real]
    rfl
  have himage (i : StageImage) : StageImage.form.read (i.toJson.withReals .real) = .ok i := by
    rw [StageImage.read_withReals, rereadCoordinate_of_eq fun _ _ => rfl,
      rereadCoordinate_of_eq fun _ _ => rfl]
    rfl
  have hscene : Scene.form.read (p.scene.toJson.withReals .real) = .ok p.scene := by
    have himages : p.scene.images.mapM (fun i => StageImage.form.read (i.toJson.withReals .real)) =
        .ok p.scene.images := by
      simp only [himage]
      exact List.mapM_pure.trans (by rw [List.map_id']; rfl)
    rw [Scene.read_withReals, himages]
    rfl
  rw [← Json.withReals_eq_self p.toJson fun _ _ => rfl, read_withReals, hstore, hscene]
  rfl

/-- A save whose numbers are read as themselves is read as what it was written from. -/
theorem parse_text_of_reread {p : Playthrough} (hdepth : ∀ v ∈ p.store.held, v.depth ≤ 124)
    (hreals : ∀ x ∈ p.toJson.reals, Json.reread? x = some (.real x)) : parse p.text = .ok p := by
  have hshallow : p.toJson.depth ≤ Json.maxDepth := (depth_toJson_le (by decide)).2 hdepth
  have hread : Json.read form.outline p.toJson.compact = .ok p.toJson :=
    Json.read_compact_of_reread (by exact trivial) p.fits_toJson hshallow hreals
  rw [parse, Form.parse, text, hread]
  exact p.read_toJson

/-- What a save is read as differs from what was written in numbers alone. -/
theorem of_parse_text {p p' : Playthrough} (h : parse p.text = .ok p') :
    ∃ store scene, p' = { p with store, scene } ∧
      List.Forall₂ (fun i' i => ∃ x y, i' = StageImage.withCoordinates i x y)
        scene.images p.scene.images := by
  have hparse := p.parse_text
  split at hparse
  · rw [h, read_withReals] at hparse
    obtain ⟨store, -, hrest⟩ := bind_eq_ok.1 hparse.symm
    obtain ⟨scene, hscene, rfl⟩ := map_eq_ok.1 hrest
    exact ⟨store, scene, rfl, Scene.of_read_withReals hscene⟩
  · rw [h] at hparse
    cases hparse

/-- A double that is written and read counts as a value just when it is finite. -/
theorem isOk_ofTree_rereadReal {x : Float} (h : (Json.reread? x).isSome) :
    (Value.ofTree (Json.rereadReal x)).isOk ↔ (Binary64.ofFloat? x).isSome := by
  obtain ⟨j, hj⟩ := Option.isSome_iff_exists.1 h
  rw [Json.rereadReal, hj, Option.getD_some]
  cases hx : documentNumber? x with
  | none =>
    have hnone : Binary64.ofFloat? x = none := Option.map_eq_none_iff.1 hx
    simp only [Json.reread?, hx, Option.some.injEq] at hj
    simp [← hj, hnone, Value.ofTree, Json.misfit]
  | some numeral =>
    obtain ⟨b, hb, -⟩ := Option.map_eq_some_iff.1 hx
    obtain ⟨y, rfl⟩ := Json.reread?_of_finite hx hj
    simp [hb, Value.ofTree]

/-- Which saves are read at all: lists must not be nested too deep, every number must be written as
a numeral that is read, and the numbers of values must be finite. -/
theorem isOk_parse_text (p : Playthrough) :
    (parse p.text).isOk ↔
      (∀ v ∈ p.store.held, v.depth ≤ 124 ∧ ∀ x ∈ v.numbers, (Binary64.ofFloat? x).isSome) ∧
        ∀ x ∈ p.toJson.reals, (Json.reread? x).isSome := by
  have hreadable := Json.readable_iff p.toJson Json.maxDepth
  rw [show Json.maxDepth = 124 + 3 from rfl, depth_toJson_le (by decide)] at hreadable
  have hparse := p.parse_text
  split at hparse
  · rename_i hread
    obtain ⟨hdepth, hreals⟩ := hreadable.1 hread
    have hboth := hreals
    simp only [reals_toJson, List.forall_mem_append, List.forall_mem_flatMap] at hboth
    have hscene := Scene.isOk_read_withReals hboth.2
    have hnumbers : ∀ v ∈ p.store.held, ∀ x ∈ v.numbers,
        ((Value.ofTree (Json.rereadReal x)).isOk ↔ (Binary64.ofFloat? x).isSome) :=
      fun v hv x hx => isOk_ofTree_rereadReal (hboth.1 v hv x hx)
    rw [hparse, read_withReals, Json.isOk_bind_map, Store.isOk_read_withReals]
    constructor
    · rintro ⟨hstore, -⟩
      exact ⟨fun v hv => ⟨hdepth v hv, fun x hx => (hnumbers v hv x hx).1 (hstore v hv x hx)⟩,
        hreals⟩
    · rintro ⟨hstore, -⟩
      exact ⟨fun v hv x hx => (hnumbers v hv x hx).2 ((hstore v hv).2 x hx), hscene⟩
  · rename_i hread
    rw [show Json.maxDepth = 124 + 3 from rfl, hreadable] at hread
    simp only [hparse, Bool.false_eq_true, false_iff, not_and]
    intro hvalues hreals
    exact hread ⟨fun v hv => (hvalues v hv).1, hreals⟩

end Playthrough

end BranchingStory
