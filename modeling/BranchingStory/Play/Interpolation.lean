import BranchingStory.Play.Store
import BranchingStory.Text.Blank
/-!
# Interpolation

A token is `{{name}}`. In the text that is shown it stands for the value of the variable
of that id or, if there is none, of the variable declared under that name. Text put in is not looked
at again, and a token that means nothing is left as it is.
-/

namespace BranchingStory

namespace Store

/-- The value a name stands for. A name that is no id is looked up among the declarations, where
the first one of that name counts even if its variable does not exist. -/
def namedValue? (s : Store) (declarations : List Declaration) (name : String) : Option Value :=
  (s.get? name).or ((declarations.find? (·.name = name)).bind fun d => s.get? d.id)

end Store

namespace Text

/-- What follows two opening braces, if it is the rest of a token: the text up to the first closing
brace, which must not be empty, and what comes after two closing braces. -/
def tokenAt? (text : List Char) : Option (List Char × List Char) :=
  let token := text.takeWhile (· ≠ '}')
  match text.dropWhile (· ≠ '}') with
  | '}' :: '}' :: rest => if token.isEmpty then none else some (token, rest)
  | _ => none

/-- A token is longer than what comes after it. -/
theorem length_of_tokenAt? {text token rest : List Char} (h : tokenAt? text = some (token, rest)) :
    rest.length < text.length := by
  simp only [tokenAt?] at h
  have hlen := List.takeWhile_append_dropWhile (p := (· ≠ '}')) (l := text)
  split at h
  · rename_i tail heq
    split at h
    · cases h
    · cases h
      rw [heq] at hlen
      rw [← hlen]
      simp only [List.length_append, List.length_cons]
      omega
  · cases h

/-- The text with its tokens replaced; `value?` is the text to put in for a name. -/
def replaceTokens (value? : String → Option String) : List Char → List Char
  | '{' :: '{' :: rest =>
    match h : tokenAt? rest with
    | some (token, after) =>
      have : after.length < rest.length := length_of_tokenAt? h
      let shown := match value? (String.ofList (trim token)) with
        | some value => value.toList
        | none => '{' :: '{' :: token ++ ['}', '}']
      shown ++ replaceTokens value? after
    | none => '{' :: replaceTokens value? ('{' :: rest)
  | c :: rest => c :: replaceTokens value? rest
  | [] => []
termination_by text => text.length

end Text

/-- A text with the values of a store in place of its tokens. -/
def Store.interpolate (s : Store) (declarations : List Declaration) (text : String) : String :=
  String.ofList
    (Text.replaceTokens (fun name => (s.namedValue? declarations name).map Value.render)
      text.toList)

end BranchingStory
