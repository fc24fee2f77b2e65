import SpacingLint.Proofs.Source.Gap
import SpacingLint.Proofs.Source.Renaming

/-! # Mending the gaps behind `if`

A keyword `if` is **misspaced** when the next lexeme is an opening parenthesis and no single
space comes right before that.  Mending puts a single space in place of all the trivia between
the two (`Lexeme.mend`), and moves what comes behind accordingly.

Mended lexemes are the lexemes of their own text (`Lexeme.Scanned.mend`).  This is not for free:
a token or a piece of trivia may reach further when the text behind it changes, and `/` may
begin a comment.  But two characters are enough to tell what stands at the front of a text
(`Lexeme.Runs.onto_take`), a blank ends every token, and the text behind a lexeme that stays as
it is begins with the same two characters as before.  So the induction over the lexemes carries
those two characters along.
-/
namespace SpacingLint
namespace Lexeme

open SpacingLint.Parser (peek)

/-- An opening parenthesis is spelled in one way. -/
theorem eq_paren_of_word {c : Char} {cs more rest : List Char}
    (h : word c cs = some (.openParen, more, rest)) : c = '(' ∧ more = [] := by
  unfold word at h
  split at h
  · next hpunctuation =>
    cases h
    unfold punctuation? at hpunctuation
    split at hpunctuation <;> cases hpunctuation
    exact ⟨rfl, rfl⟩
  · split at h
    · obtain ⟨hkind, -⟩ : _ ∧ _ ∧ _ := by simpa using h
      unfold wordKind at hkind
      repeat' split at hkind
      all_goals cases hkind
    · repeat' split at h
      all_goals cases h

/-! ## Mended lexemes -/

/-- A keyword `if` before a parenthesis from which it is not kept by a single space. -/
def Misspaced (lexeme : Lexeme) (rest : List Lexeme) : Prop :=
  lexeme.kind = .ifKeyword ∧ peek rest = .openParen ∧
    lexeme.trailing.getLast? ≠ some ⟨.whitespace, " "⟩

instance (lexeme : Lexeme) (rest : List Lexeme) : Decidable (lexeme.Misspaced rest) :=
  inferInstanceAs (Decidable (_ ∧ _ ∧ _))

/-- Some lexemes without the trivia before the first of them. -/
def bareFront : List Lexeme → List Lexeme
  | [] => []
  | lexeme :: rest => { lexeme with leading := [] } :: rest

@[simp] theorem length_bareFront (lexemes : List Lexeme) :
    (bareFront lexemes).length = lexemes.length := by
  cases lexemes <;> rfl

/-- Some lexemes that stand at an offset, with every gap behind a misspaced keyword replaced by
a single space. -/
def mend (offset : Nat) : List Lexeme → List Lexeme
  | [] => []
  | lexeme :: rest =>
    if lexeme.Misspaced rest then
      { lexeme with offset := offset + size lexeme.leading, trailing := [⟨.whitespace, " "⟩] } ::
        mend (offset + size lexeme.leading + lexeme.text.utf8ByteSize + 1) (bareFront rest)
    else
      { lexeme with offset := offset + size lexeme.leading } :: mend (offset + lexeme.width) rest
termination_by lexemes => lexemes.length

/-- Without the trivia before it the first lexeme is read where it stands. -/
theorem Scanned.bareFront {offset : Nat} {cs : List Char} {lexemes : List Lexeme}
    (h : Scanned offset cs lexemes) :
    ∃ place after, Scanned place after (bareFront lexemes) := by
  cases h with
  | endOfFile hleading => exact ⟨_, [], .endOfFile (.stop rfl)⟩
  | token hleading hword htrailing hlater =>
    exact ⟨_, _, .token (.stop hleading.front_eq_other) hword htrailing hlater⟩

/-- A parenthesis that no trivia leads begins its text. -/
theorem Scanned.before_paren {offset : Nat} {cs : List Char} {lexemes : List Lexeme}
    (h : Scanned offset cs (Lexeme.bareFront lexemes)) (hpeek : peek lexemes = .openParen) :
    Text.Before '(' cs := by
  cases lexemes with
  | nil => cases hpeek
  | cons lexeme rest =>
    obtain ⟨kind, text, place, leading, trailing⟩ := lexeme
    obtain rfl : kind = .openParen := hpeek
    rw [Lexeme.bareFront] at h
    cases h with
    | token hleading hword =>
      cases hleading
      obtain ⟨rfl, -⟩ := eq_paren_of_word hword
      rfl

/-- A single space before a parenthesis is read as such. -/
theorem runs_space {after : List Char} (h : Text.Before '(' after) :
    Runs true (' ' :: after) [⟨.whitespace, " "⟩] after := by
  obtain ⟨more, rfl⟩ := List.head?_eq_some_iff.mp h
  exact .more nofun (front_blank rfl _) (.stop rfl)

theorem size_space : size [⟨.whitespace, " "⟩] = 1 := by decide

/-- **A token is read again** before other trivia and other lexemes, if what stands behind its
own text begins as before, or with a blank behind a text of several characters. -/
theorem Scanned.token_again {cs after more behind behind' : List Char} {c : Char} {kind : Kind}
    {leading trailing : List Piece} {lexeme : Lexeme} {later : List Lexeme} {place : Nat}
    (hleading : Runs false cs leading (c :: after))
    (hword : word c after = some (kind, more, behind))
    (htrailing : Runs true behind' trailing (later.flatMap chars))
    (hbehind : behind'.take 2 = behind.take 2 ∨ Text.Before ' ' behind' ∧ more ≠ [])
    (hlater : Scanned (place + size leading + Text.bytes (c :: more) + size trailing)
      (later.flatMap chars) later)
    (hlexeme : lexeme =
      ⟨kind, String.ofList (c :: more), place + size leading, leading, trailing⟩) :
    Scanned place ((lexeme :: later).flatMap chars) (lexeme :: later) ∧
      ((lexeme :: later).flatMap chars).take 2 = cs.take 2 := by
  subst hlexeme
  have hchars : (⟨kind, String.ofList (c :: more), place + size leading, leading, trailing⟩ ::
      later : List Lexeme).flatMap chars = pieceChars leading ++ c :: (more ++ behind') := by
    rw [List.flatMap_cons, ← htrailing.chars_eq]
    simp [chars]
  have hcut : word c (more ++ behind') = some (kind, more, behind') :=
    word_cut hword (hbehind.imp resumes_of_take fun hblank => hblank.1)
  have htake : (c :: (more ++ behind')).take 2 = (c :: after).take 2 := by
    rw [← append_of_word hword]
    rcases hbehind with htake | ⟨-, hne⟩
    · exact take_append_congr htake (c :: more)
    · obtain ⟨d, more, rfl⟩ := List.exists_cons_of_ne_nil hne
      rfl
  rw [hchars]
  refine ⟨.token (hleading.onto_take htake) hcut htrailing hlater, ?_⟩
  rw [← hleading.chars_eq]
  exact take_append_congr htake (pieceChars leading)

/-- **Mended lexemes are what is read** from their own text, and that begins as the text before
did. -/
theorem Scanned.mend {offset : Nat} {cs : List Char} {lexemes : List Lexeme}
    (h : Scanned offset cs lexemes) (place : Nat) :
    Scanned place ((mend place lexemes).flatMap chars) (mend place lexemes) ∧
      ((mend place lexemes).flatMap chars).take 2 = cs.take 2 := by
  fun_induction Lexeme.mend place lexemes generalizing offset cs with
  | case1 => cases h
  | case2 place lexeme rest hspaced ih =>
    cases h with
    | endOfFile => cases hspaced.1
    | @token _ _ after more behind tail c kind leading trailing _ hleading hword _ hlater =>
      obtain rfl : kind = .ifKeyword := hspaced.1
      obtain ⟨_, _, hbare⟩ := hlater.bareFront
      obtain ⟨hrest, htake⟩ := ih hbare
      have hparen : Text.Before '(' _ :=
        (head?_eq_of_take htake).trans (hbare.before_paren hspaced.2.1)
      have hmore : more ≠ [] := by
        rintro rfl
        cases eq_if_of_word hword
      refine Scanned.token_again hleading hword (runs_space hparen) (.inr ⟨rfl, hmore⟩) ?_
        rfl
      simpa [size_space] using hrest
  | case3 place lexeme rest hspaced ih =>
    cases h with
    | @endOfFile _ _ leading hleading =>
      have hchars : ([⟨.endOfFile, "", place + size leading, leading, []⟩] : List Lexeme).flatMap
          chars = cs := by
        simp [chars, ← hleading.chars_eq]
      rw [Lexeme.mend]
      exact ⟨hchars ▸ .endOfFile hleading, by rw [hchars]⟩
    | @token _ _ after more behind tail c kind leading trailing _ hleading hword htrailing hlater =>
      obtain ⟨hrest, htake⟩ := ih hlater
      refine Scanned.token_again hleading hword (htrailing.onto_take htake) (.inl ?_)
        ?_ rfl
      · rw [← htrailing.chars_eq]
        exact take_append_congr htake (pieceChars trailing)
      · simpa [width, Nat.add_assoc] using hrest

/-! ## What mending keeps -/

theorem map_plain_bareFront (lexemes : List Lexeme) :
    (bareFront lexemes).map plain = lexemes.map plain := by
  cases lexemes <;> rfl

/-- **Kinds and texts stay as they are.** -/
theorem map_plain_mend (place : Nat) (lexemes : List Lexeme) :
    (mend place lexemes).map plain = lexemes.map plain := by
  fun_induction mend place lexemes with
  | case1 => rfl
  | case2 place lexeme rest hspaced ih =>
    rw [List.map_cons, ih, map_plain_bareFront]
    rfl
  | case3 place lexeme rest hspaced ih =>
    rw [List.map_cons, ih]
    rfl

theorem peek_mend (place : Nat) (lexemes : List Lexeme) :
    peek (mend place lexemes) = peek lexemes := by
  cases lexemes with
  | nil => rw [mend]
  | cons lexeme rest =>
    rw [mend]
    split <;> rfl

end Lexeme
end SpacingLint
