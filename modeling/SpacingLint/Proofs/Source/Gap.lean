import SpacingLint.Proofs.Source.Resuming

/-! # Between two lexemes

The trivia between two lexemes is read twice: up to the first line break as what trails
the one, from there on as what leads the other.  The two runs are one run of trivia
(`Runs.join`), and it is read the same when all that follows it is cut off, so a gap can be
judged by its own text.  How the run is split shows where its line breaks are: trivia that
trails a lexeme and leaves any for the next one ends in a line break (`Runs.trailing`).
-/
namespace SpacingLint
namespace Lexeme

/-! ## Runs taken together -/

namespace Runs

variable {cs mid rest : List Char} {pieces more : List Piece}

/-- A run that ends with its line is read on by the run after it. -/
theorem join (h : Runs true cs pieces mid) (hmore : Runs false mid more rest) :
    Runs false cs (pieces ++ more) rest := by
  induction h with
  | stop => exact hmore
  | lineBreak _ hfront => exact .more nofun hfront hmore
  | more _ hfront _ ih => exact .more nofun hfront (ih hmore)

/-- **How a run that ends with its line ends**: with a line break and no other, or before
what is no trivia and without any line break. -/
theorem trailing (h : Runs true cs pieces rest) :
    (∃ init last, pieces = init ++ [last] ∧ last.kind = .endOfLine) ∨
      front rest = .other ∧ ∀ piece ∈ pieces, piece.kind ≠ .endOfLine := by
  induction h with
  | stop hfront => exact .inr ⟨hfront, nofun⟩
  | lineBreak => exact .inl ⟨[], _, rfl, rfl⟩
  | more hkind _ _ ih =>
    rcases ih with ⟨init, last, rfl, hlast⟩ | ⟨hrest, hpieces⟩
    · exact .inl ⟨_ :: init, last, rfl, hlast⟩
    · refine .inr ⟨hrest, ?_⟩
      intro piece hpiece
      rcases List.mem_cons.mp hpiece with rfl | hpiece
      · exact hkind rfl
      · exact hpieces piece hpiece

/-- Where no trivia stands none is read. -/
theorem eq_nil_of_other {ofLine : Bool} (h : Runs ofLine cs pieces rest)
    (hfront : front cs = .other) : pieces = [] := by
  cases h with
  | stop => rfl
  | lineBreak _ htrivia => rw [hfront] at htrivia; cases htrivia
  | more _ htrivia => rw [hfront] at htrivia; cases htrivia

/-- A run that does not end with its line takes all the trivia there is. -/
theorem front_eq_other (h : Runs false cs pieces rest) : front rest = .other := by
  induction h with
  | stop hfront => exact hfront
  | lineBreak hline => cases hline
  | more _ _ _ ih => exact ih

end Runs

/-! ## The run between two lexemes -/

/-- What trails one lexeme and what leads another were read one after the other. -/
def Adjoins (before after : Lexeme) : Prop :=
  ∃ cs mid rest, Runs true cs before.trailing mid ∧ Runs false mid after.leading rest

/-- The trivia between two lexemes. -/
def between (before after : Lexeme) : List Piece := before.trailing ++ after.leading

theorem Scanned.adjoins {offset : Nat} {cs : List Char} {init rest : List Lexeme}
    {before after : Lexeme} (h : Scanned offset cs (init ++ before :: after :: rest)) :
    before.Adjoins after := by
  induction init generalizing offset cs with
  | nil =>
    cases h with
    | token _ _ htrailing hlater =>
      cases hlater with
      | endOfFile hleading => exact ⟨_, _, _, htrailing, hleading⟩
      | token hleading => exact ⟨_, _, _, htrailing, hleading⟩
  | cons lexeme init ih =>
    generalize hlexemes : lexeme :: init ++ before :: after :: rest = lexemes at h
    cases h with
    | endOfFile => cases init <;> cases hlexemes
    | token _ _ _ hlater =>
      obtain ⟨-, rfl⟩ := List.cons.inj hlexemes
      exact ih hlater

/-- Whether pieces of trivia end in a single space and have no line break. -/
def endsInSpace (pieces : List Piece) : Bool :=
  pieces.all (·.kind ≠ .endOfLine) && pieces.getLast? = some ⟨.whitespace, " "⟩

theorem endsInSpace_iff {pieces : List Piece} :
    endsInSpace pieces = true ↔
      (∀ piece ∈ pieces, piece.kind ≠ .endOfLine) ∧
        pieces.getLast? = some ⟨.whitespace, " "⟩ := by
  simp [endsInSpace]

namespace Adjoins

variable {before after : Lexeme} (h : before.Adjoins after)

include h

/-- **The text of a gap reads as the trivia in it.** -/
theorem run_between :
    run false 0 (pieceChars (before.between after)) = .ok (before.between after, []) := by
  obtain ⟨_, _, _, htrailing, hleading⟩ := h
  exact (htrailing.join hleading).cut.run_eq 0

/-- **A gap is judged by what trails the lexeme in front**: it ends in a single space,
without any line break before, exactly if that trivia does. -/
theorem endsInSpace_between :
    endsInSpace (before.between after) = true ↔
      before.trailing.getLast? = some ⟨.whitespace, " "⟩ := by
  obtain ⟨_, _, _, htrailing, hleading⟩ := h
  -- Either the line ended and the space would have to lead the next lexeme, or nothing does.
  rcases htrailing.trailing with ⟨init, last, hinit, hlast⟩ | ⟨hfront, hpieces⟩
  · constructor
    · intro hends
      exact absurd hlast ((endsInSpace_iff.mp hends).1 last (by simp [between, hinit]))
    · intro hspace
      rw [hinit, List.getLast?_concat] at hspace
      obtain rfl := Option.some.inj hspace
      cases hlast
  · rw [between, hleading.eq_nil_of_other hfront, List.append_nil, endsInSpace_iff]
    exact ⟨fun hends => hends.2, fun hspace => ⟨hpieces, hspace⟩⟩

end Adjoins

/-! ## The text between two lexemes -/

section Text

variable {cs : List Char} {init rest : List Lexeme} {before after : Lexeme}

/-- Where two lexemes stand in a text, and what stands between them. -/
theorem Scanned.exists_eq_append (h : Scanned 0 cs (init ++ before :: after :: rest)) :
    ∃ front back,
      cs = front ++ before.text.toList ++ pieceChars (before.between after) ++ back ∧
        before.offset = Text.bytes front ∧
        after.offset = before.offset + before.text.utf8ByteSize +
          Text.bytes (pieceChars (before.between after)) := by
  obtain ⟨-, hbefore, hafter, -⟩ := placed_append.mp h.placed
  refine ⟨init.flatMap chars ++ pieceChars before.leading,
    after.text.toList ++ pieceChars after.trailing ++ rest.flatMap chars, ?_, ?_, ?_⟩
  · rw [← h.chars_eq]
    simp [chars, between]
  · rw [hbefore, Text.bytes_append, bytes_flatMap_chars, bytes_pieceChars, Nat.zero_add]
  · rw [hafter, hbefore, between, pieceChars_append, Text.bytes_append, bytes_pieceChars,
      bytes_pieceChars, width]
    omega

/-- The text between two lexemes is that of the trivia between them. -/
theorem Scanned.slice?_between (h : Scanned 0 cs (init ++ before :: after :: rest)) :
    Text.slice? cs (before.offset + before.text.utf8ByteSize) after.offset =
      some (pieceChars (before.between after)) := by
  obtain ⟨front, back, rfl, hbefore, hafter⟩ := h.exists_eq_append
  rw [hafter, hbefore, Text.utf8ByteSize_eq_bytes, ← Text.bytes_append]
  exact Text.slice?_append ..

/-- The text of a lexeme and of the gap behind it. -/
theorem Scanned.slice?_upTo (h : Scanned 0 cs (init ++ before :: after :: rest)) :
    Text.slice? cs before.offset after.offset =
      some (before.text.toList ++ pieceChars (before.between after)) := by
  obtain ⟨front, back, rfl, hbefore, hafter⟩ := h.exists_eq_append
  rw [hafter, hbefore, Text.utf8ByteSize_eq_bytes, Nat.add_assoc, ← Text.bytes_append,
    List.append_assoc front]
  exact Text.slice?_append ..

end Text

end Lexeme
end SpacingLint
