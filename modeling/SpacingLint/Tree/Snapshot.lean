import SpacingLint.Text.Quoted
import SpacingLint.Tree.Basic

/-! # Snapshots of trees

A snapshot shows a tree one element a line, indented by two blanks for each level.
A node is shown by its label.  A token is shown with its kind, its span and its
quoted text, followed by its trivia, before and after, where it has any.
-/
namespace SpacingLint
namespace Snapshot

/-- A piece of trivia: its kind and its quoted text. -/
def trivia (entry : Trivia) : String := entry.kind.name ++ " " ++ Text.quoted entry.text

/-- Some trivia behind its label; nothing if there is none. -/
def triviaList (label : String) (entries : List Trivia) : String :=
  if entries.isEmpty then ""
  else " " ++ label ++ "=[" ++ String.intercalate ", " (entries.map trivia) ++ "]"

/-- A token on a line of its own. -/
def token (token : Token) : String :=
  token.kind.name ++ "@" ++ toString token.span ++ " " ++ Text.quoted token.text ++
    triviaList "leading" token.leading ++ triviaList "trailing" token.trailing

/-- An element without what is below it. -/
def element : Element → String
  | .token t => token t
  | .node n => n.label

/-- An element on a line of its own, indented as deep as it stands. -/
def line (entry : Nat × Element) : String :=
  String.ofList (List.replicate (2 * entry.1) ' ') ++ element entry.2

end Snapshot

/-- The snapshot of a tree. -/
def Tree.snapshot (tree : Tree) : String :=
  String.intercalate "\n" ((tree.root.outline 0).map Snapshot.line)

end SpacingLint
