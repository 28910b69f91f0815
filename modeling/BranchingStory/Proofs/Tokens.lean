import BranchingStory.Play.Engine
import Mathlib.Data.List.DropRight
import Mathlib.Tactic.Common
/-!
# What interpolation puts in

Interpolation goes through a text once, from left to right. Here it is told by what it makes of the
text: the first token is replaced, the text before it is kept, and the same is done to the text after
it. No text that was put in is looked at, and where there is no token nothing changes
(`interpolate_iff_replaced`).
-/

namespace BranchingStory

namespace Text

/-! ## Blanks at the ends -/

/-- A part of a text is left when the blanks at both of its ends are taken away. -/
structure IsTrimmed (text part : List Char) : Prop where
  exists_blanks : ∃ before after, text = before ++ part ++ after ∧
    (∀ c ∈ before, isBlank c) ∧ ∀ c ∈ after, isBlank c
  first : ∀ c ∈ part.head?, isBlank c = false
  last : ∀ c ∈ part.getLast?, isBlank c = false

theorem trim_eq (text : List Char) : trim text = (text.dropWhile isBlank).rdropWhile isBlank := rfl

theorem isTrimmed_trim (text : List Char) : IsTrimmed text (trim text) where
  exists_blanks := by
    refine ⟨text.takeWhile isBlank, (text.dropWhile isBlank).rtakeWhile isBlank, ?_, ?_, ?_⟩
    · rw [trim_eq, List.append_assoc, List.rdropWhile_append_rtakeWhile,
        List.takeWhile_append_dropWhile]
    · exact fun c hc => List.mem_takeWhile_imp hc
    · exact fun c hc => List.mem_rtakeWhile_imp hc
  first c hc := by
    have hprefix : trim text <+: text.dropWhile isBlank := List.rdropWhile_prefix ..
    obtain ⟨rest, hrest⟩ := List.head?_eq_some_iff.1 hc
    rw [hrest] at hprefix
    obtain ⟨more, hmore⟩ := hprefix
    have hhead := List.head?_dropWhile_not isBlank text
    rw [← hmore] at hhead
    exact hhead
  last c hc := by
    rw [trim_eq] at hc
    have hne : (text.dropWhile isBlank).rdropWhile isBlank ≠ [] := by
      intro hnil
      rw [hnil] at hc
      cases hc
    have hlast := List.rdropWhile_last_not isBlank (text.dropWhile isBlank) hne
    rw [List.getLast?_eq_some_getLast hne] at hc
    cases hc
    simpa using hlast

theorem IsTrimmed.eq_trim {text part : List Char} (h : IsTrimmed text part) : part = trim text := by
  obtain ⟨⟨before, after, rfl, hbefore, hafter⟩, hfirst, hlast⟩ := h
  have hdropped : (before ++ part ++ after).dropWhile isBlank = (part ++ after).dropWhile isBlank := by
    rw [List.append_assoc, List.dropWhile_append_of_pos hbefore]
  rw [trim_eq, hdropped]
  cases part with
  | nil =>
    rw [List.nil_append, List.dropWhile_eq_nil_iff.2 hafter]
    rfl
  | cons c rest =>
    have hstays : (c :: rest ++ after).dropWhile isBlank = c :: rest ++ after :=
      List.dropWhile_cons_of_neg (by simp [hfirst c rfl])
    rw [hstays, List.rdropWhile, List.reverse_append,
      List.dropWhile_append_of_pos fun c hc => hafter c (List.mem_reverse.1 hc)]
    symm
    rw [← List.rdropWhile, List.rdropWhile_eq_self_iff]
    intro hne
    simp [hlast _ (List.getLast?_eq_some_getLast hne)]

/-! ## Tokens -/

/-- What can stand between the braces of a token. -/
def IsName (name : List Char) : Prop := name ≠ [] ∧ '}' ∉ name

/-- A token. -/
def braced (name : List Char) : List Char := '{' :: '{' :: name ++ ['}', '}']

/-- A text that begins with a token. -/
def BeginsWithToken (text : List Char) : Prop :=
  ∃ name after, IsName name ∧ text = braced name ++ after

/-- What a text becomes when its tokens are replaced one after the other, where `Shows` tells what
is put in for what stands between the braces. The token that comes first is the one that begins
leftmost. -/
inductive Replaced (Shows : List Char → List Char → Prop) : List Char → List Char → Prop
  | plain {text : List Char} (hnone : ∀ pos, ¬ BeginsWithToken (text.drop pos)) :
    Replaced Shows text text
  | token {before name after shown out : List Char} (hname : IsName name)
      (hfirst : ∀ pos < before.length, ¬ BeginsWithToken ((before ++ braced name ++ after).drop pos))
      (hshown : Shows name shown) (hrest : Replaced Shows after out) :
    Replaced Shows (before ++ braced name ++ after) (before ++ shown ++ out)

theorem braced_append (name after : List Char) :
    braced name ++ after = '{' :: '{' :: (name ++ '}' :: '}' :: after) := by
  simp [braced]

theorem tokenAt?_eq_some {text name after : List Char} :
    tokenAt? text = some (name, after) ↔ IsName name ∧ text = name ++ '}' :: '}' :: after := by
  constructor
  · intro h
    have hparts := List.takeWhile_append_dropWhile (p := (· ≠ '}')) (l := text)
    unfold tokenAt? at h
    dsimp only at h
    split at h
    · rename_i rest hdrop
      split at h
      · cases h
      · rename_i hne
        cases h
        rw [hdrop] at hparts
        refine ⟨⟨fun hnil => hne (List.isEmpty_iff.2 hnil), fun hmem => ?_⟩, hparts.symm⟩
        simpa using List.mem_takeWhile_imp hmem
    · cases h
  · rintro ⟨⟨hne, hfree⟩, rfl⟩
    have hkept : ∀ c ∈ name, decide (c ≠ '}') = true := by
      rintro c hc
      refine decide_eq_true ?_
      rintro rfl
      exact hfree hc
    unfold tokenAt?
    simp only [List.takeWhile_append_of_pos hkept, List.dropWhile_append_of_pos hkept]
    simp [hne]

theorem tokenAt?_eq_none {text : List Char} (h : ¬ BeginsWithToken ('{' :: '{' :: text)) :
    tokenAt? text = none := by
  cases htoken : tokenAt? text with
  | none => rfl
  | some found =>
    obtain ⟨name, after⟩ := found
    obtain ⟨hname, rfl⟩ := tokenAt?_eq_some.1 htoken
    exact absurd ⟨name, after, hname, (braced_append name after).symm⟩ h

/-- The text that is put in for what stands between the braces of a token. -/
def replacement (value? : String → Option String) (name : List Char) : List Char :=
  match value? (String.ofList (trim name)) with
  | some value => value.toList
  | none => braced name

section
variable {value? : String → Option String} {Shows : List Char → List Char → Prop}

theorem replaceTokens_token {name : List Char} (hname : IsName name) (after : List Char) :
    replaceTokens value? (braced name ++ after) =
      replacement value? name ++ replaceTokens value? after := by
  have htoken : tokenAt? (name ++ '}' :: '}' :: after) = some (name, after) :=
    tokenAt?_eq_some.2 ⟨hname, rfl⟩
  rw [braced_append, replaceTokens]
  split
  · rename_i found rest heq
    rw [htoken] at heq
    cases heq
    rfl
  · rename_i heq
    rw [htoken] at heq
    cases heq

/-- A character with which no token begins is kept. -/
theorem replaceTokens_cons {c : Char} {text : List Char} (h : ¬ BeginsWithToken (c :: text)) :
    replaceTokens value? (c :: text) = c :: replaceTokens value? text := by
  by_cases hopen : c = '{' ∧ text.head? = some '{'
  · obtain ⟨rfl, hhead⟩ := hopen
    obtain ⟨rest, rfl⟩ := List.head?_eq_some_iff.1 hhead
    have hnone := tokenAt?_eq_none h
    rw [replaceTokens]
    split
    · rename_i heq
      rw [hnone] at heq
      cases heq
    · rfl
  · rw [replaceTokens]
    rintro rest rfl rfl
    exact hopen ⟨rfl, rfl⟩

/-- Text before the first token is kept. -/
theorem replaceTokens_append {before text : List Char}
    (h : ∀ pos < before.length, ¬ BeginsWithToken ((before ++ text).drop pos)) :
    replaceTokens value? (before ++ text) = before ++ replaceTokens value? text := by
  induction before with
  | nil => rfl
  | cons c before ih =>
    have hfirst : ¬ BeginsWithToken (c :: (before ++ text)) := h 0 (Nat.succ_pos _)
    rw [List.cons_append, replaceTokens_cons hfirst,
      ih fun pos hpos => h (pos + 1) (Nat.succ_lt_succ hpos)]
    rfl

/-! ## One replacement after the other -/

theorem Replaced.eq_replaceTokens {text out : List Char} (h : Replaced Shows text out)
    (hshows : ∀ name shown, Shows name shown → shown = replacement value? name) :
    out = replaceTokens value? text := by
  induction h with
  | plain hnone =>
    rename_i text
    have hkept : replaceTokens value? (text ++ []) = text ++ replaceTokens value? [] :=
      replaceTokens_append (by simpa using fun pos _ => hnone pos)
    rw [List.append_nil] at hkept
    rw [hkept]
    simp [replaceTokens]
  | token hname hfirst hshown _ ih =>
    rw [List.append_assoc, List.append_assoc, replaceTokens_append (by simpa using hfirst),
      replaceTokens_token hname, hshows _ _ hshown, ih]

/-- A character with which no token begins stays where it is. -/
theorem Replaced.cons {c : Char} {text out : List Char} (h : Replaced Shows text out)
    (hfirst : ¬ BeginsWithToken (c :: text)) : Replaced Shows (c :: text) (c :: out) := by
  cases h with
  | plain hnone =>
    refine .plain fun pos => ?_
    cases pos with
    | zero => exact hfirst
    | succ pos => exact hnone pos
  | token hname hbefore hshown hrest =>
    rename_i before name after shown out
    change Replaced Shows (c :: before ++ braced name ++ after) (c :: before ++ shown ++ out)
    refine .token hname (fun pos hpos => ?_) hshown hrest
    cases pos with
    | zero => exact hfirst
    | succ pos => exact hbefore pos (Nat.lt_of_succ_lt_succ hpos)

theorem replaced_replaceTokens (hshows : ∀ name, Shows name (replacement value? name))
    (text : List Char) : Replaced Shows text (replaceTokens value? text) := by
  induction hlength : text.length using Nat.strong_induction_on generalizing text with
  | _ length ih =>
    by_cases htoken : BeginsWithToken text
    · obtain ⟨name, after, hname, rfl⟩ := htoken
      rw [replaceTokens_token hname]
      change Replaced Shows ([] ++ braced name ++ after)
        ([] ++ replacement value? name ++ replaceTokens value? after)
      refine .token hname (fun _ => nofun) (hshows name) (ih _ ?_ after rfl)
      simp [← hlength, braced]
      omega
    · cases text with
      | nil =>
        rw [replaceTokens]
        exact .plain fun pos => by simpa using htoken
      | cons c rest =>
        rw [replaceTokens_cons htoken]
        exact (ih rest.length (by simp [← hlength]) rest rfl).cons htoken

/-- Replacing tokens makes of a text what it becomes token by token, and nothing else. -/
theorem replaceTokens_eq_iff
    (hshows : ∀ name shown, Shows name shown ↔ shown = replacement value? name)
    {text out : List Char} : replaceTokens value? text = out ↔ Replaced Shows text out := by
  constructor
  · rintro rfl
    exact replaced_replaceTokens (fun name => (hshows name _).2 rfl) text
  · intro h
    exact (h.eq_replaceTokens fun name shown => (hshows name shown).1).symm

end

end Text

/-! ## Values -/

/-- What is put in for what stands between the braces of a token, where `declared?` tells the first
declaration of a name. It is looked at without the blanks around it. -/
inductive Store.Shows (s : Store) (declared? : String → Option Declaration) (name : List Char) :
    List Char → Prop
  /-- It is the id of a variable. -/
  | variable {trimmed : List Char} {value : Value} (htrimmed : Text.IsTrimmed name trimmed)
      (hvalue : s.get? (String.ofList trimmed) = some value) :
    Shows s declared? name value.render.toList
  /-- It is the name of a declaration whose variable exists. -/
  | declared {trimmed : List Char} {d : Declaration} {value : Value}
      (htrimmed : Text.IsTrimmed name trimmed) (hnone : s.get? (String.ofList trimmed) = none)
      (hdeclared : declared? (String.ofList trimmed) = some d) (hvalue : s.get? d.id = some value) :
    Shows s declared? name value.render.toList
  /-- It means nothing, and the token is left as it is. -/
  | verbatim {trimmed : List Char} (htrimmed : Text.IsTrimmed name trimmed)
      (hnone : s.get? (String.ofList trimmed) = none)
      (hundeclared : ∀ d, declared? (String.ofList trimmed) = some d → s.get? d.id = none) :
    Shows s declared? name (Text.braced name)

theorem Store.shows_iff {s : Store} {declarations : List Declaration} {name shown : List Char} :
    s.Shows (fun name => declarations.find? (·.name = name)) name shown ↔
      shown = Text.replacement (fun name => (s.namedValue? declarations name).map Value.render)
        name := by
  have htrim := Text.isTrimmed_trim name
  constructor
  · rintro (⟨htrimmed, hvalue⟩ | ⟨htrimmed, hnone, hdeclared, hvalue⟩ |
      ⟨htrimmed, hnone, hundeclared⟩) <;> rw [htrimmed.eq_trim] at *
    · simp [Text.replacement, namedValue?, hvalue]
    · simp [Text.replacement, namedValue?, hnone, hdeclared, hvalue]
    · have hbind : ((declarations.find? (·.name = String.ofList (Text.trim name))).bind fun d =>
          s.get? d.id) = none := Option.bind_eq_none_iff.2 hundeclared
      simp [Text.replacement, namedValue?, hnone, hbind]
  · rintro rfl
    unfold Text.replacement namedValue?
    dsimp only
    cases hvalue : s.get? (String.ofList (Text.trim name)) with
    | some value => exact .variable htrim hvalue
    | none =>
      cases hbind : ((declarations.find? (·.name = String.ofList (Text.trim name))).bind fun d =>
          s.get? d.id) with
      | none => exact .verbatim htrim hvalue (Option.bind_eq_none_iff.1 hbind)
      | some value =>
        obtain ⟨d, hdeclared, hvalue'⟩ := Option.bind_eq_some_iff.1 hbind
        exact .declared htrim hvalue hdeclared hvalue'

theorem Store.interpolate_eq_iff (s : Store) (declarations : List Declaration)
    (text out : String) :
    s.interpolate declarations text = out ↔
      Text.Replaced (s.Shows fun name => declarations.find? (·.name = name)) text.toList
        out.toList := by
  rw [← Text.replaceTokens_eq_iff fun _ _ => Store.shows_iff]
  unfold interpolate
  constructor
  · rintro rfl
    simp
  · intro h
    rw [h]
    simp

/-! ## Main result -/

/-- Interpolation is one pass of replacements from left to right, each of which puts in the value of
the variable with that id, else the value of the variable that is first declared under that name,
and else leaves the token as it is. An engine looks among the declarations of its chapter before
those of the whole story. -/
theorem interpolate_iff_replaced :
    (∀ (s : Store) (declarations : List Declaration) (text out : String),
      s.interpolate declarations text = out ↔
        Text.Replaced (s.Shows fun name => declarations.find? (·.name = name)) text.toList
          out.toList) ∧
    (∀ (e : Engine) (text out : String),
      e.interpolate text = out ↔
        Text.Replaced (e.run.store.Shows (e.story.declarationNamed? e.currentChapter?)) text.toList
          out.toList) ∧
    ∀ (s : Story) (chapter : Option Chapter) (name : String),
      s.declarationNamed? chapter name =
        (chapter.bind fun c => c.declared.find? (·.name = name)).or
          (s.declared.find? (·.name = name)) := by
  refine ⟨Store.interpolate_eq_iff, fun e text out => Store.interpolate_eq_iff _ _ text out, ?_⟩
  intro s chapter name
  unfold Story.declarationNamed? Story.declarations
  rw [List.find?_append]
  cases chapter <;> rfl

/-- A value that looks like a token is left alone, and of three opening braces the first two open a
token, here one without a value. -/
example : Store.interpolate { values := .ofList [("a", .text "{{b}}"), ("b", .text "no")] } []
    "{{ a }}{b}{{{b}}}" = "{{b}}{b}{{{b}}}" := by
  decide +kernel

end BranchingStory
