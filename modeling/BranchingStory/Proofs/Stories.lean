import BranchingStory.Document.Story
import BranchingStory.Proofs.Restoring
/-!
# Stories that were read are read again

Every part of a story is written so that it is read as what it was, and a part that was read is
written with finite numbers and no deeper than the text it came of. A story that was accepted is
therefore accepted again of the text that is written for it: what another text left out, what it
said under an older name and what nobody knows are written the way they were understood.
-/

namespace BranchingStory

open Json (Fields Form Legible Record)

namespace Value

theorem ofTrees_eq_mapM (items : List Json) : ofTrees items = items.mapM ofTree := by
  induction items with
  | nil => rfl
  | cons item rest ih => rw [ofTrees, ih, List.mapM_cons]

theorem toJsons_eq_map (items : List Value) : toJsons items = items.map toJson := by
  induction items with
  | nil => rfl
  | cons item rest ih => rw [toJsons, ih, List.map_cons]

/-- A value is nested as deep as the tree that it came of. -/
theorem legible_of_ofTree {room : Nat} {j : Json} (hj : Legible .whole room j) {v : Value}
    (hv : ofTree j = .ok v) : Legible .whole room v.toJson := by
  -- by induction on why the tree is legible, of which the outline stays the same throughout
  generalize hw : Json.Outline.whole = w at hj
  induction hj generalizing v with
  | skipped h =>
    subst hw
    cases h
  | null => cases hv
  | bool _ _ b =>
    obtain rfl := Except.ok.inj hv
    exact .bool _ _ b
  | text _ _ s =>
    obtain rfl := Except.ok.inj hv
    exact .text _ _ s
  | integer _ room hlow hhigh =>
    subst hw
    have hx := Form.restores_double.kept (Nat.zero_le room) (.integer _ _ hlow hhigh) rfl
    obtain rfl := Except.ok.inj hv
    exact hx
  | real _ _ h =>
    obtain rfl := Except.ok.inj hv
    exact .real _ _ h
  | @array o room items _ ih =>
    subst hw
    rw [ofTree, ofTrees_eq_mapM] at hv
    obtain ⟨vs, hvs, rfl⟩ := map_eq_ok.1 hv
    rw [toJson, toJsons_eq_map]
    refine Json.legible_array.2 (List.forall_mem_map.2 fun v hv => ?_)
    obtain ⟨j, hmem, hread⟩ := Json.exists_of_mem_mapM hvs hv
    exact ih j hmem hread rfl
  | object => cases hv

theorem restores : form.Restores toJson 0 where
  ne_null v := by cases v <;> nofun
  read := ofTree_toJson
  fits := fits_toJson
  kept _ hj hv := legible_of_ofTree hj hv

end Value

/-! ## Conditions -/

theorem Comparison.inverts : Comparison.form.Inverts toJson 0 :=
  Form.inverts_word (by intro c; cases c <;> rfl)

namespace Bounds

theorem yields (room : Nat) :
    record.Yields room fun b => Json.LegibleFields room b.toFields := by
  refine .seq (.seq (.map (fun min hmin max hmax value hvalue => ?_)
    (.optional Form.restores_double (Nat.zero_le _) _))
    (.optional Form.restores_double (Nat.zero_le _) _))
    (.optional Value.restores (Nat.zero_le _) _)
  simpa [toFields] using And.intro hmin (And.intro hmax hvalue)

end Bounds

namespace Condition

theorem read_toJson (c : Condition) : form.read c.toJson = .ok c := by
  cases c <;> simp [form, toJson, payload, word, Form.ofWhole, Form.fields, bind, ofWord,
    Bounds.record, Bounds.toFields, Form.inverts_text.read, Form.inverts_text.read_ofOption,
    Form.restores_double.read_ofOption, Value.restores.read_ofOption,
    Comparison.inverts.read_ofOption]

theorem fits_toJson (c : Condition) : form.outline.fits c.toJson := by
  change Json.Outline.whole.fits c.toJson
  cases c <;> simp [toJson, payload, Bounds.toFields, Form.inverts_text.fits_whole,
    Form.restores_double.fits_whole, Comparison.inverts.fits_whole, Value.fits_toJson]

/-- Only bounds and values hold numbers or lists. -/
theorem yields_ofWord (room : Nat) (word : String) :
    (ofWord word).Yields room fun c => Legible .whole (room + 1) c.toJson := by
  unfold ofWord
  split
  · refine .seq (.seq (.map (fun id _ comparison _ value hvalue => ?_) .any) .any)
      (.optional Value.restores (Nat.zero_le _) _)
    simpa [toJson, payload, Comparison.toJson] using hvalue
  · refine .map (fun bounds hbounds => ?_) (Bounds.yields room)
    simpa [toJson, payload] using hbounds
  · refine .map (fun bounds hbounds => ?_) (Bounds.yields room)
    simpa [toJson, payload] using hbounds
  · refine .seq (.map (fun key _ value hvalue => ?_) .any)
      (.optional Value.restores (Nat.zero_le _) _)
    simpa [toJson, payload] using hvalue
  · refine .map (fun choice _ => ?_) .any
    simp [toJson, payload]
  · refine .seq (.map (fun person _ bounds hbounds => ?_) .any) (Bounds.yields room)
    simpa [toJson, payload] using hbounds
  · refine .seq (.map (fun faction _ bounds hbounds => ?_) .any) (Bounds.yields room)
    simpa [toJson, payload] using hbounds
  · refine .map (fun value hvalue => ?_) (.optional Value.restores (Nat.zero_le _) _)
    simpa [toJson, payload] using hvalue
  · refine .map (fun person _ => ?_) .any
    simp [toJson, payload]
  · refine .pure ?_
    simp [toJson, payload]

theorem restores : form.Restores toJson 1 where
  ne_null _ := nofun
  read := read_toJson
  fits := fits_toJson
  kept := Form.kept_ofTagged fun room _ => yields_ofWord room

end Condition

/-! ## Operations and effects -/

theorem Action.inverts : Action.form.Inverts toJson 0 :=
  Form.inverts_word (by intro a; cases a <;> rfl)

namespace Operation

theorem read_toJson (o : Operation) : form.read o.toJson = .ok o := by
  cases o <;> simp [form, toJson, Form.ofWhole, Form.fields, bind, ofTarget, Operand.record,
    Operand.sourceFields, Form.inverts_text.read, Form.inverts_text.read_ofOption,
    Form.inverts_text.readOr_map, Form.inverts_int64.readOr_map, Action.inverts.read,
    Value.restores.read_ofOption]

theorem fits_toJson (o : Operation) : form.outline.fits o.toJson := by
  change Json.Outline.whole.fits o.toJson
  cases o <;> simp [toJson, Operand.sourceFields, Form.inverts_text.fits_whole,
    Form.inverts_boolean.fits_whole, Form.inverts_int64.fits_whole, Action.inverts.fits_whole,
    Value.fits_toJson]

theorem yields_operand (room : Nat) :
    Operand.record.Yields room fun o => ∀ v ∈ o.literal, Legible .whole room v.toJson :=
  .seq (.seq (.map (fun _ hvalue _ _ _ _ => hvalue)
    (.optional Value.restores (Nat.zero_le _) _)) .any) .any

theorem yields_ofTarget (room : Nat) (target : String) :
    (ofTarget target).Yields room fun o => Legible .whole (room + 1) o.toJson := by
  have hindex := Form.inverts_int64.legible (Nat.zero_le room)
  unfold ofTarget
  split
  · refine .seq (.seq (.seq (.map (fun id _ action _ operand hoperand index _ => ?_) .any) .any)
      (yields_operand room)) .any
    simpa [toJson, Operand.sourceFields, Action.toJson, hindex] using hoperand
  · refine .seq (.seq (.map (fun key _ action _ operand hoperand => ?_) .any) .any)
      (yields_operand room)
    simpa [toJson, Operand.sourceFields, Action.toJson] using hoperand
  · refine .pure ?_
    simp [toJson]

theorem restores : form.Restores toJson 1 where
  ne_null o := by cases o <;> nofun
  read := read_toJson
  fits := fits_toJson
  kept := Form.kept_ofTagged fun room _ => yields_ofTarget room

end Operation

namespace StatChange

theorem restores : form.Restores toJson 1 where
  ne_null _ := nofun
  read s := by
    simp [form, toJson, Form.ofRecord, Form.fields, bind, Form.inverts_text.read,
      Form.restores_double.read]
  fits s := by
    simp [form, toJson, Form.ofRecord, Form.inverts_text.fits, Form.restores_double.fits]
  kept := by
    refine Form.kept_ofRecord (by decide) fun room _ => ?_
    refine .seq (.map (fun subject _ delta hdelta => ?_) .any)
      (.required Form.restores_double (Nat.zero_le _) _)
    simpa [toJson] using hdelta

end StatChange

namespace Effects

/-- Three levels are the effects, a list of changes and a change. -/
theorem restores : form.Restores toJson 3 where
  ne_null _ := nofun
  read e := by
    simp [form, toJson, Form.ofRecord, Form.fields, bind, Form.inverts_text.readOr_map,
      Form.restores_double.readOr_map, StatChange.restores.readOr_list,
      Value.restores.readOr_keyMap]
  fits e := by
    unfold form Form.ofRecord toJson
    rw [Json.Outline.fits_record]
    simp [Form.inverts_text.fits, Form.restores_double.fits,
      (Form.restores_list StatChange.restores).fits, (Form.restores_keyMap Value.restores).fits]
  kept := by
    refine Form.kept_ofRecord (by decide) fun room hroom => ?_
    refine .seq (.seq (.seq (.seq (.seq (.seq (.map (fun setFlags hflags gold hgold hp hhp
      affection haffection reputation hreputation card _ relic _ => ?_)
      (.keyMap Value.restores (by omega) _))
      (.optional Form.restores_double (Nat.zero_le _) _))
      (.optional Form.restores_double (Nat.zero_le _) _))
      (.list StatChange.restores (by omega) _))
      (.list StatChange.restores (by omega) _)) .any) .any
    have hnumbers := And.intro hgold hhp
    simpa [toJson, hflags, haffection, hreputation] using hnumbers

end Effects

/-! ## Pictures -/

theorem Timing.inverts : Timing.form.Inverts toJson 0 :=
  Form.inverts_word (by intro t; cases t <;> rfl)

theorem Picture.yields {path layer : Record String} {order : Record Int32} {room : Nat}
    (hroom : 0 < room) :
    (record path layer order).Yields room fun p => Json.LegibleFields room p.toFields := by
  have horder := Form.inverts_int32.legible (Nat.zero_le room)
  have heffects := (Form.inverts_list EntranceEffect.inverts).legible hroom
  have hduration := Form.inverts_uint64.legible (Nat.zero_le room)
  refine .seq (.seq (.seq (.seq (.seq (.seq (.seq (.seq (.seq (.map (fun path _ slot _ alignment _
    x hx y hy flip _ fit _ effect _ effects _ duration _ => ?_) .any) .any) .any)
    (.optional Form.restores_double (Nat.zero_le _) _))
    (.optional Form.restores_double (Nat.zero_le _) _)) .any) .any) .any) .any) .any
  have hcoordinates := And.intro hx hy
  simpa [toFields, Alignment.toJson, EntranceEffect.toJson, horder, heffects, hduration] using
    hcoordinates

namespace ImageDirective

/-- The second level is the list of effects. -/
theorem restores : form.Restores toJson 2 where
  ne_null _ := nofun
  read d := by
    simp [form, toJson, Picture.record, Picture.toFields, Form.ofRecord, Form.fields, bind,
      Form.inverts_text.read, Form.inverts_int32.read, Alignment.inverts.read,
      Form.restores_double.readOr_map, Form.inverts_boolean.readOr_map,
      Form.inverts_text.readOr_map, EntranceEffect.inverts.readOr_map,
      EntranceEffect.inverts.readOr_list, ExitEffect.inverts.readOr_map,
      Form.inverts_uint64.readOr_map, Timing.inverts.read]
  fits d := by
    unfold form Form.ofRecord toJson
    rw [Json.Outline.fits_record]
    simp [Picture.record, Picture.toFields, Form.inverts_text.fits, Form.inverts_int32.fits,
      Alignment.inverts.fits, Form.restores_double.fits, Form.inverts_boolean.fits,
      EntranceEffect.inverts.fits, (Form.inverts_list EntranceEffect.inverts).fits,
      ExitEffect.inverts.fits, Form.inverts_uint64.fits, Timing.inverts.fits]
  kept := by
    refine Form.kept_ofRecord (by decide) fun room hroom => ?_
    have hduration := Form.inverts_uint64.legible (Nat.zero_le room)
    refine .seq (.seq (.seq (.map (fun picture hpicture exitEffect _ exitDuration _ timing _ => ?_)
      (Picture.yields hroom)) .any) .any) .any
    simpa [toJson, ExitEffect.toJson, Timing.toJson, hduration] using hpicture

end ImageDirective

/-! ## Nodes -/

namespace Choice

/-- A choice is one level more than its effects. -/
theorem restores : form.Restores toJson 4 where
  ne_null _ := nofun
  read c := by
    simp [form, toJson, Form.ofRecord, Form.fields, bind, Form.inverts_text.read,
      Form.inverts_text.readOr_map, Condition.restores.readOr_map, Effects.restores.readOr_map]
  fits c := by
    simp [form, toJson, Form.ofRecord, Form.inverts_text.fits, Condition.restores.fits,
      Effects.restores.fits]
  kept := by
    refine Form.kept_ofRecord (by decide) fun room hroom => ?_
    refine .seq (.seq (.seq (.seq (.seq (.seq (.map (fun id _ text _ next _ condition hcondition
      effects heffects resultText _ disabledText _ => ?_) .any) .any) .any)
      (.optional Condition.restores (by omega) _))
      (.optional Effects.restores (by omega) _)) .any) .any
    simpa [toJson] using And.intro hcondition heffects

end Choice

namespace Branch

theorem restores : form.Restores toJson 2 where
  ne_null _ := nofun
  read b := by
    simp [form, toJson, Form.ofRecord, Form.fields, bind, Form.inverts_text.read,
      Form.inverts_text.readOr_map, Condition.restores.read]
  fits b := by
    simp [form, toJson, Form.ofRecord, Form.inverts_text.fits, Condition.restores.fits]
  kept := by
    refine Form.kept_ofRecord (by decide) fun room hroom => ?_
    refine .seq (.seq (.map (fun id _ condition hcondition next _ => ?_) .any)
      (.required Condition.restores hroom _)) .any
    simpa [toJson] using hcondition

end Branch

theorem EndAction.inverts : EndAction.form.Inverts toJson 0 :=
  Form.inverts_word (by intro a; cases a <;> rfl)

theorem ChapterEnd.inverts : ChapterEnd.form.Inverts toJson 1 where
  ne_null _ := nofun
  read e := by
    simp [form, toJson, Form.ofRecord, Form.fields, bind, EndAction.inverts.read,
      Form.inverts_text.readOr_map, Form.inverts_boolean.readOr_map]
  fits e := by
    simp [form, toJson, Form.ofRecord, EndAction.inverts.fits, Form.inverts_text.fits,
      Form.inverts_boolean.fits]
  reals e := by
    simp [toJson, Json.reals, Json.realsFields, EndAction.inverts.reals,
      Form.inverts_text.reals_optionalField, Form.inverts_boolean.reals_optionalField]
  depth e := by
    refine Nat.succ_le_succ ?_
    simp [Json.depthFields, Json.depth, EndAction.toJson, Form.inverts_text.depth_optionalField,
      Form.inverts_boolean.depth_optionalField]

namespace CustomData

theorem restores : form.Restores toJson 2 where
  ne_null _ := nofun
  read d := by
    simp [form, toJson, Form.ofRecord, Form.fields, bind, Form.inverts_text.read,
      Form.inverts_text.readOr_map, (Form.restores_keyMap Value.restores).read]
  fits d := by
    simp [form, toJson, Form.ofRecord, Form.inverts_text.fits,
      (Form.restores_keyMap Value.restores).fits]
  kept := by
    refine Form.kept_ofRecord (by decide) fun room hroom => ?_
    refine .seq (.seq (.map (fun title _ description _ values hvalues => ?_) .any) .any)
      (.keyMap Value.restores hroom _)
    simpa [toJson] using hvalues

end CustomData

namespace NodeKind

theorem read_toFields (k : NodeKind) : record.read k.toFields = .ok k := by
  cases k <;> simp [record, toFields, payload, type, ofType, NodeType.inverts.read,
    Form.inverts_text.readOr_map, ChapterEnd.inverts.readOr_map,
    (Form.restores_list Choice.restores).read, (Form.restores_list Operation.restores).read,
    (Form.restores_list Branch.restores).read, ImageDirective.restores.readOr_map,
    CustomData.restores.readOr_map]

theorem fits_toFields (k : NodeKind) : Json.Outline.whole.fitsFields k.toFields := by
  cases k <;> simp [toFields, payload, Form.inverts_text.fits_whole,
    ChapterEnd.inverts.fits_whole, (Form.restores_list Choice.restores).fits_whole,
    (Form.restores_list Operation.restores).fits_whole,
    (Form.restores_list Branch.restores).fits_whole, ImageDirective.restores.fits_whole,
    CustomData.restores.fits_whole]

/-- The deepest is a list of choices. -/
theorem yields_ofType {room : Nat} (hroom : 5 ≤ room) (t : NodeType) :
    (ofType t).Yields room fun k => Json.LegibleFields room k.toFields := by
  have hending := ChapterEnd.inverts.legible (Nat.le_trans (by decide) hroom)
  cases t with
  | start | dialogue | shop => exact .pure (by simp [toFields, payload])
  | choice =>
    refine .map (fun choices hchoices => ?_) (.list Choice.restores hroom _)
    simpa [toFields, payload] using hchoices
  | battle | event | script => exact .map (fun _ _ => by simp [toFields, payload]) .any
  | chapterEnd => exact .map (fun _ _ => by simp [toFields, payload, hending]) .any
  | operations =>
    refine .map (fun list hlist => ?_) (.list Operation.restores (by omega) _)
    simpa [toFields, payload] using hlist
  | condition =>
    refine .seq (.map (fun branches hbranches otherwise _ => ?_)
      (.list Branch.restores (by omega) _)) .any
    simpa [toFields, payload] using hbranches
  | image =>
    refine .map (fun directive hdirective => ?_) (.optional ImageDirective.restores (by omega) _)
    simpa [toFields, payload] using hdirective
  | custom =>
    refine .map (fun data hdata => ?_) (.optional CustomData.restores (by omega) _)
    simpa [toFields, payload] using hdata

/-- What a node holds has no name in common with the fields that all nodes have. -/
theorem not_knows_toFields (k : NodeKind) : ∀ f ∈ k.toFields, Node.common.knows f.1 = false := by
  have hoptional {α : Type} {name : String} (write : α → Json) (o : Option α)
      (hname : Node.common.knows name = false) :
      ∀ f ∈ Json.optionalField name write o, Node.common.knows f.1 = false := by
    cases o <;> simp [Json.optionalField, hname]
  refine List.forall_mem_cons.2 ⟨rfl, ?_⟩
  cases k with
  | start | dialogue | shop => exact List.forall_mem_nil _
  | choice | operations => exact List.forall_mem_cons.2 ⟨rfl, List.forall_mem_nil _⟩
  | condition _ otherwise => exact List.forall_mem_cons.2 ⟨rfl, hoptional _ otherwise rfl⟩
  | battle o | event o | chapterEnd o | image o | script o | custom o => exact hoptional _ o rfl

end NodeKind

namespace Node

/-- The fields that all nodes have. -/
def commonFields (n : Node) : Fields :=
  ("id", .text n.id)
    :: Json.optionalField "nextNodeId" .text n.next
    ++ Json.optionalField "speaker" .text n.speaker
    ++ Json.optionalField "text" .text n.text
    ++ Json.optionalField "onEnterEffects" Effects.toJson n.onEnter

theorem toJson_eq (n : Node) : n.toJson = .object (n.commonFields ++ n.kind.toFields) := rfl

theorem knows_commonFields (n : Node) : ∀ f ∈ n.commonFields, common.knows f.1 := by
  have hoptional {α : Type} {name : String} (write : α → Json) (o : Option α)
      (hname : common.knows name) : ∀ f ∈ Json.optionalField name write o, common.knows f.1 := by
    cases o <;> simp [Json.optionalField, hname]
  simp only [commonFields, List.forall_mem_append, List.forall_mem_cons]
  exact ⟨⟨⟨⟨rfl, hoptional _ _ rfl⟩, hoptional _ _ rfl⟩, hoptional _ _ rfl⟩, hoptional _ _ rfl⟩

/-- Nothing that a node holds is mistaken for a field that all nodes have. -/
theorem read_common (n : Node) :
    common.read (n.commonFields ++ n.kind.toFields) =
      .ok (mk n.id n.next n.speaker n.text n.onEnter) := by
  have hnone (name : String) (hname : common.knows name) :
      Fields.named [name] n.kind.toFields = [] := by
    refine List.filter_eq_nil_iff.2 fun f hf hmem => ?_
    obtain rfl : f.1 = name := by simpa using hmem
    simp [n.kind.not_knows_toFields f hf] at hname
  have hid := hnone "id" rfl
  have hnext := hnone "nextNodeId" rfl
  have hspeaker := hnone "speaker" rfl
  have htext := hnone "text" rfl
  have honEnter := hnone "onEnterEffects" rfl
  simp [common, commonFields, hid, hnext, hspeaker, htext, honEnter, Form.inverts_text.read,
    Form.inverts_text.readOr_map, Effects.restores.readOr_map]

theorem read_toJson (n : Node) : form.read n.toJson = .ok n := by
  have hcommon : n.commonFields.filter (fun f => !common.knows f.1) = [] :=
    List.filter_eq_nil_iff.2 fun f hf => by simp [n.knows_commonFields f hf]
  have hkind : n.kind.toFields.filter (fun f => !common.knows f.1) = n.kind.toFields :=
    List.filter_eq_self.2 fun f hf => by simp [n.kind.not_knows_toFields f hf]
  simp only [toJson_eq, form, Form.ofRecordWith, Form.fields, bind, Json.bind_ok, read_common,
    List.filter_append, hcommon, hkind, List.nil_append, NodeKind.read_toFields]
  rfl

theorem fits_toJson (n : Node) : form.outline.fits n.toJson := by
  have hkind : (Json.Outline.record common.outlines .whole).fitsFields n.kind.toFields := by
    rw [Form.fitsFields_of_not_knows n.kind.not_knows_toFields]
    exact n.kind.fits_toFields
  rw [toJson_eq, form, Form.ofRecordWith, Json.Outline.fits_record, Json.fitsFields_append, hkind]
  simp [common, commonFields, Form.inverts_text.fits, Effects.restores.fits]

theorem restores : form.Restores toJson 6 where
  ne_null _ := nofun
  read := read_toJson
  fits := fits_toJson
  kept := by
    refine Form.kept_ofRecordWith (by decide) (fun room hroom => ?_)
      (fun room hroom => NodeKind.yields_ofType hroom)
    refine .seq (.seq (.seq (.seq (.map (fun id _ next _ speaker _ text _ onEnter honEnter kind
      hkind => ?_) .any) .any) .any) .any) (.optional Effects.restores (by omega) _)
    simpa [toJson, hkind] using honEnter

end Node

/-! ## Stories -/

theorem ValueType.inverts : ValueType.form.Inverts toJson 0 :=
  Form.inverts_word (by intro t; cases t <;> rfl)

namespace Declaration

theorem restores : form.Restores toJson 1 where
  ne_null _ := nofun
  read d := by
    simp [form, toJson, Form.ofRecord, Form.fields, bind, Form.inverts_text.read,
      ValueType.inverts.read, Value.restores.read, ValueType.inverts.readOr_map,
      Form.inverts_text.readOr_map]
  fits d := by
    simp [form, toJson, Form.ofRecord, Form.inverts_text.fits, ValueType.inverts.fits,
      Value.restores.fits]
  kept := by
    refine Form.kept_ofRecord (by decide) fun room _ => ?_
    refine .seq (.seq (.seq (.seq (.seq (.map (fun id _ name _ type _ initial hinitial itemType _
      description _ => ?_) .any) .any) .any) (.required Value.restores (Nat.zero_le _) _)) .any)
      .any
    simpa [toJson, ValueType.toJson] using hinitial

end Declaration

namespace Chapter

/-- Two levels more than a node, for the chapter and its list of nodes. -/
theorem restores : form.Restores toJson 8 where
  ne_null _ := nofun
  read c := by
    simp [form, toJson, Form.ofRecord, Form.fields, bind, Form.inverts_text.read,
      (Form.restores_list Node.restores).read, Declaration.restores.readOr_list,
      Form.inverts_text.readOr_map]
  fits c := by
    simp [form, toJson, Form.ofRecord, Form.inverts_text.fits,
      (Form.restores_list Node.restores).fits, (Form.restores_list Declaration.restores).fits]
  kept := by
    refine Form.kept_ofRecord (by decide) fun room hroom => ?_
    refine .seq (.seq (.seq (.seq (.seq (.seq (.map (fun id _ title _ description _ nodes hnodes
      start _ declared hdeclared otherName _ => ?_) .any) .any) .any)
      (.list Node.restores hroom _)) .any) (.list Declaration.restores (by omega) _)) .any
    simpa [toJson, hdeclared] using hnodes

end Chapter

namespace Stage

theorem restores : form.Restores toJson 10 where
  ne_null _ := nofun
  read s := by
    simp [form, toJson, Form.ofRecord, Form.fields, bind, Form.inverts_text.read,
      (Form.restores_list Chapter.restores).read]
  fits s := by
    simp [form, toJson, Form.ofRecord, Form.inverts_text.fits,
      (Form.restores_list Chapter.restores).fits]
  kept := by
    refine Form.kept_ofRecord (by decide) fun room hroom => ?_
    refine .seq (.seq (.seq (.map (fun id _ title _ description _ chapters hchapters => ?_) .any)
      .any) .any) (.list Chapter.restores hroom _)
    simpa [toJson] using hchapters

end Stage

theorem Presentation.inverts : Presentation.form.Inverts toJson 1 where
  ne_null _ := nofun
  read p := by
    simp [form, toJson, Form.ofRecord, Form.fields, bind, Form.inverts_text.readOr_map]
  fits p := by
    simp [form, toJson, Form.ofRecord, Form.inverts_text.fits]
  reals p := by
    simp [toJson, Json.reals, Form.inverts_text.reals_optionalField]
  depth p := by
    refine Nat.succ_le_succ ?_
    simp [Form.inverts_text.depth_optionalField]

namespace Story

theorem restores : form.Restores toJson 12 where
  ne_null _ := nofun
  read s := by
    simp [form, toJson, Form.ofRecord, Form.fields, bind, Form.inverts_text.read,
      (Form.restores_list Stage.restores).read, (Form.restores_list Declaration.restores).read,
      Presentation.inverts.readOr_map]
  fits s := by
    simp [form, toJson, Form.ofRecord, Form.inverts_text.fits,
      (Form.restores_list Stage.restores).fits, (Form.restores_list Declaration.restores).fits,
      Presentation.inverts.fits]
  kept := by
    refine Form.kept_ofRecord (by decide) fun room hroom => ?_
    have hsettings := Presentation.inverts.legible (Nat.le_trans (by decide) hroom)
    refine .seq (.seq (.seq (.seq (.map (fun name _ version _ stages hstages declared hdeclared
      settings _ => ?_) .any) .any) (.list Stage.restores hroom _))
      (.list Declaration.restores (by omega) _)) .any
    simpa [toJson, hsettings] using And.intro hstages hdeclared

end Story

/-! ## A story with something of everything -/

namespace Manor

def node (id type : String) (rest : Fields) : Json :=
  .object ([("id", .text id), ("type", .text type)] ++ rest)

/-- A choice for those whom the old man likes. Whom a change concerns has its older name. -/
def plea : Json :=
  .object [("id", .text "plea"),
    ("condition", .object [("min", .integer 0), ("characterId", .text "old man"),
      ("type", .text "affection")]),
    ("effects", .object [
      ("setFlags", .object [("words", .array [.array [], .text "please"]), ("begged", .bool true)]),
      ("hp", .real 0.5),
      ("affection", .array [.object [("characterId", .text "old man"), ("delta", .integer 2)]]),
      ("reputation", .array [.object [("factionId", .text "all"), ("delta", .integer (-1))]])])]

/-- A branch whose condition is of a type nobody knows. -/
def branch : Json :=
  .object [("condition", .object [("type", .text "has_dragon"), ("value", .integer 3)])]

/-- One operation on a variable and one on what no longer exists. -/
def operations : Json :=
  .array [
    .object [("target", .text "variable"), ("variableId", .text "steps"), ("action", .text "add"),
      ("useVariableValue", .bool true), ("index", .integer 1)],
    .object [("target", .text "inventory"), ("item", .text "key")]]

def picture : Json :=
  .object [("resourcePath", .text "dusk.png"), ("x", .integer 1), ("effect", .null),
    ("effects", .array [.text "shake"])]

def chapter : Json :=
  .object [("id", .text "hall"),
    ("nodes", .array [
      node "door" "start" [("colour", .text "red")],
      node "beg" "choice" [("choices", .array [plea])],
      node "look" "condition" [("conditionBranches", .array [branch])],
      node "count" "variable" [("variableOperations", operations)],
      node "dusk" "image" [("imageData", picture)],
      node "leave" "chapter_end" [("chapterEndData", .object [])]]),
    ("variables", .array [.object [("id", .text "v"), ("name", .text "steps"),
      ("type", .text "number"), ("defaultValue", .integer 7)]])]

/-- The story that was meant. -/
def story : Story where
  stages := [{ id := "house", chapters := [{
    id := "hall"
    nodes := [
      { id := "door", kind := .start },
      { id := "beg", kind := .choice [{
          id := "plea"
          condition := some (.affection (some "old man") { min := some 0 })
          effects := some {
            setFlags := .ofList
              [("begged", .bool true), ("words", .list [.list [], .text "please"])]
            hp := some 0.5
            affection := [{ subject := "old man", delta := 2 }]
            reputation := [{ subject := "all", delta := -1 }] } }] },
      { id := "look", kind := .condition [{ condition := .unknown }] none },
      { id := "count", kind := .operations [
          .onVariable (some "steps") .add { fromVariable := true } (some 1), .retired] },
      { id := "dusk", kind := .image (some {
          picture := { path := "dusk.png", x := some 1, effects := [.shake] } }) },
      { id := "leave", kind := .chapterEnd (some {}) }]
    declared := [.ofValue "v" "steps" (.number 7)] }] }]
  presentation := some { mode := some "quiet" }

end Manor

end BranchingStory
