import BranchingStory.Json.Reader
import BranchingStory.Json.Writer
/-!
# Layouts

The two forms in which a tree is written differ in blanks alone. A `Layout` says where blanks stand,
and each of the forms is the text of a tree in one layout, so what is said of all layouts holds of
both.
-/

namespace BranchingStory.Json

/-- Where blanks stand in a text: before each item and field and before the bracket after the last
one, as the level of the line says, and after the colon of a field. -/
structure Layout where
  line : Nat → List Char
  gap : List Char
  line_isSpace : ∀ level, ∀ c ∈ line level, Reader.isSpace c
  gap_isSpace : ∀ c ∈ gap, Reader.isSpace c

namespace Layout

/-- No blanks at all. -/
def tight : Layout where
  line _ := []
  gap := []
  line_isSpace := nofun
  gap_isSpace := nofun

/-- A line for every item and field. -/
def spacious : Layout where
  line := newline
  gap := [' ']
  line_isSpace level c hc := by
    rcases List.mem_cons.1 hc with rfl | hc
    · rfl
    · rw [List.eq_of_mem_replicate hc]
      rfl
  gap_isSpace c hc := by
    rw [List.mem_singleton.1 hc]
    rfl

mutual

/-- A tree with the blanks of a layout. -/
def text (l : Layout) (level : Nat) : Json → List Char
  | array [] => ['[', ']']
  | array (item :: rest) =>
    '[' :: l.itemsText (level + 1) (item :: rest) ++ l.line level ++ [']']
  | object [] => ['{', '}']
  | object (field :: rest) =>
    '{' :: l.fieldsText (level + 1) (field :: rest) ++ l.line level ++ ['}']
  | scalar => scalar.scalarText

/-- Items with commas between them. -/
def itemsText (l : Layout) (level : Nat) : List Json → List Char
  | [] => []
  | [item] => l.line level ++ l.text level item
  | item :: rest => l.line level ++ l.text level item ++ ',' :: l.itemsText level rest

/-- Fields with commas between them. -/
def fieldsText (l : Layout) (level : Nat) : Fields → List Char
  | [] => []
  | [(key, value)] => l.line level ++ quoted key ++ ':' :: l.gap ++ l.text level value
  | (key, value) :: rest =>
    l.line level ++ quoted key ++ ':' :: l.gap ++ l.text level value
      ++ ',' :: l.fieldsText level rest

end

@[simp] theorem line_tight (level : Nat) : tight.line level = [] := rfl

@[simp] theorem gap_tight : tight.gap = [] := rfl

@[simp] theorem line_spacious (level : Nat) : spacious.line level = newline level := rfl

@[simp] theorem gap_spacious : spacious.gap = [' '] := rfl

mutual

theorem text_tight (level : Nat) : ∀ j : Json, tight.text level j = j.compactText
  | .null | .bool _ | .integer _ | .real _ | .text _ => by simp [text, compactText]
  | .array [] => by simp [text, compactText, compactItems]
  | .array (item :: rest) => by
    simp [text, compactText, itemsText_tight (level + 1) (item :: rest)]
  | .object [] => by simp [text, compactText, compactFields]
  | .object (field :: rest) => by
    simp [text, compactText, fieldsText_tight (level + 1) (field :: rest)]

theorem itemsText_tight (level : Nat) : ∀ items : List Json,
    tight.itemsText level items = compactItems items
  | [] => rfl
  | [item] => by simp [itemsText, compactItems, text_tight level item]
  | item :: next :: rest => by
    simp [itemsText, compactItems, text_tight level item, itemsText_tight level (next :: rest)]

theorem fieldsText_tight (level : Nat) : ∀ fields : Fields,
    tight.fieldsText level fields = compactFields fields
  | [] => rfl
  | [(key, value)] => by simp [fieldsText, compactFields, text_tight level value]
  | (key, value) :: next :: rest => by
    simp [fieldsText, compactFields, text_tight level value, fieldsText_tight level (next :: rest)]

end

mutual

theorem text_spacious (level : Nat) : ∀ j : Json, spacious.text level j = j.indentedText level
  | .null | .bool _ | .integer _ | .real _ | .text _ => by simp [text, indentedText]
  | .array [] => by simp [text, indentedText]
  | .array (item :: rest) => by
    simp [text, indentedText, itemsText_spacious (level + 1) (item :: rest)]
  | .object [] => by simp [text, indentedText]
  | .object (field :: rest) => by
    simp [text, indentedText, fieldsText_spacious (level + 1) (field :: rest)]

theorem itemsText_spacious (level : Nat) : ∀ items : List Json,
    spacious.itemsText level items = indentedItems level items
  | [] => rfl
  | [item] => by simp [itemsText, indentedItems, text_spacious level item]
  | item :: next :: rest => by
    simp [itemsText, indentedItems, text_spacious level item,
      itemsText_spacious level (next :: rest)]

theorem fieldsText_spacious (level : Nat) : ∀ fields : Fields,
    spacious.fieldsText level fields = indentedFields level fields
  | [] => rfl
  | [(key, value)] => by simp [fieldsText, indentedFields, text_spacious level value]
  | (key, value) :: next :: rest => by
    simp [fieldsText, indentedFields, text_spacious level value,
      fieldsText_spacious level (next :: rest)]

end

/-- What follows the first item of an array. -/
def itemsTail (l : Layout) (level : Nat) : List Json → List Char
  | [] => []
  | item :: rest => ',' :: l.itemsText level (item :: rest)

theorem itemsText_cons (l : Layout) (level : Nat) (item : Json) (rest : List Json) :
    l.itemsText level (item :: rest) =
      l.line level ++ (l.text level item ++ l.itemsTail level rest) := by
  cases rest <;> simp [itemsText, itemsTail]

/-- What follows the first field of an object. -/
def fieldsTail (l : Layout) (level : Nat) : Fields → List Char
  | [] => []
  | field :: rest => ',' :: l.fieldsText level (field :: rest)

theorem fieldsText_cons (l : Layout) (level : Nat) (key : String) (value : Json) (rest : Fields) :
    l.fieldsText level ((key, value) :: rest) =
      l.line level ++
        (quoted key ++ ':' :: (l.gap ++ (l.text level value ++ l.fieldsTail level rest))) := by
  cases rest <;> simp [fieldsText, fieldsTail]

end Layout

end BranchingStory.Json
