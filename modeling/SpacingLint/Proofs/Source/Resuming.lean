import SpacingLint.Proofs.Source.Lexing
import SpacingLint.Proofs.Text.Readable

/-! # Reading on before another text

What stands at the front of a text shows from the characters behind it as well: blanks go on,
an operator becomes one of two characters, a division opens a comment.  Here it is said how much
of the text behind may change such that the same is read: nothing or the same next character for
a piece of trivia and for a token (`Resumes`), the same two for the end of a run of trivia.

So a run and a token are read the same before any text that begins with the same two characters
(`Runs.onto_take`, `word_cut`), and also when some or all of the text behind is cut off
(`Runs.before`, `Runs.cut`), for then there is less that they could go on with.
-/
namespace SpacingLint
namespace Lexeme

/-- A text goes on as another: it ends, or begins with the same character. -/
def Resumes (after mid : List Char) : Prop := ∀ c ∈ after.head?, mid.head? = some c

theorem Resumes.append {after mid : List Char} (h : Resumes after mid) (cs : List Char) :
    Resumes (cs ++ after) (cs ++ mid) := by
  cases cs with
  | nil => exact h
  | cons d cs => exact fun _ hc => hc

theorem resumes_of_isPrefix {after rest : List Char} (h : after <+: rest) : Resumes after rest := by
  intro c hc
  obtain ⟨more, rfl⟩ := h
  rw [List.head?_append, hc, Option.some_or]

theorem head?_eq_of_take {cs after : List Char} (htake : after.take 2 = cs.take 2) :
    after.head? = cs.head? := by
  have hhead : (after.take 2).head? = (cs.take 2).head? := congrArg List.head? htake
  rwa [List.head?_take, List.head?_take] at hhead

theorem resumes_of_take {cs after : List Char} (htake : after.take 2 = cs.take 2) :
    Resumes after cs :=
  fun _ hc => (head?_eq_of_take htake).symm.trans hc

theorem take_append_congr {n : Nat} {after rest : List Char} (htake : after.take n = rest.take n)
    (cs : List Char) : (cs ++ after).take n = (cs ++ rest).take n := by
  have hless := congrArg (List.take (n - cs.length)) htake
  rw [List.take_take, List.take_take, Nat.min_eq_left (Nat.sub_le ..)] at hless
  rw [List.take_append, List.take_append, hless]

/-! ## Pieces of trivia -/

section Cut

variable {p : Char → Bool} {cs after : List Char}

/-- What goes on where a class ended is past it. -/
theorem past_cut (h : Resumes after (cs.dropWhile p)) : Text.Past p after := by
  intro c hc
  have hnot := List.head?_dropWhile_not p cs
  rw [h c hc] at hnot
  exact hnot

theorem takeWhile_cut (h : Text.Past p after) :
    (cs.takeWhile p ++ after).takeWhile p = cs.takeWhile p :=
  Text.takeWhile_append_past (List.all_eq_true.mp List.all_takeWhile) h

theorem dropWhile_cut (h : Text.Past p after) : (cs.takeWhile p ++ after).dropWhile p = after :=
  Text.dropWhile_append_past (List.all_eq_true.mp List.all_takeWhile) h

end Cut

theorem ne_nil_of_cutComment {cs body after : List Char}
    (h : cutComment cs = some (body, after)) : body ≠ [] := by
  fun_induction cutComment cs generalizing body with
  | case1 => cases h
  | case2 => cases h; exact List.cons_ne_nil _ _
  | case3 =>
    obtain ⟨_, -, heq⟩ := Option.map_eq_some_iff.mp h
    cases heq
    exact List.cons_ne_nil _ _

/-- A comment ends where it does whatever follows it. -/
theorem cutComment_cut {cs body after : List Char} (h : cutComment cs = some (body, after))
    (before : List Char) : cutComment (body ++ before) = some (body, before) := by
  fun_induction cutComment cs generalizing body with
  | case1 => cases h
  | case2 rest => cases h; rfl
  | case3 c rest hnot ih =>
    obtain ⟨⟨inner, _⟩, hcut, heq⟩ := Option.map_eq_some_iff.mp h
    cases heq
    -- The comment goes on behind `c`, so the closing delimiter does not begin there.
    have hmore : ∀ more, c = '*' → inner ++ before = '/' :: more → False := by
      intro more hc heq
      obtain ⟨d, inner', rfl⟩ := List.exists_cons_of_ne_nil (ne_nil_of_cutComment hcut)
      obtain ⟨rfl, -⟩ := List.cons.inj heq
      exact hnot _ hc (append_of_cutComment hcut).symm
    rw [List.cons_append, cutComment, ih hcut]
    · rfl
    · exact hmore

theorem front_blank {c : Char} (h : isBlank c = true) (cs : List Char) :
    front (c :: cs) = .trivia .whitespace (c :: cs.takeWhile isBlank) (cs.dropWhile isBlank) := by
  have hc : c = ' ' ∨ c = '\t' := by simpa [isBlank] using h
  rcases hc with rfl | rfl <;> rfl

/-- A piece of trivia is read the same before a text that goes on as the one behind it. -/
theorem front_cut {cs text mid after : List Char} {kind : TriviaKind}
    (h : front cs = .trivia kind text mid) (hafter : Resumes after mid) :
    front (text ++ after) = .trivia kind text after := by
  unfold front at h
  split at h
  · cases h; rfl
  · cases h; rfl
  · cases h
    rw [List.cons_append, List.cons_append, front, takeWhile_cut (past_cut hafter),
        dropWhile_cut (past_cut hafter)]
  · split at h
    · next hcut =>
      cases h
      simp only [List.cons_append, front, cutComment_cut hcut]
    · cases h
  · split at h
    · next hblank =>
      cases h
      rw [List.cons_append, front_blank hblank, takeWhile_cut (past_cut hafter),
        dropWhile_cut (past_cut hafter)]
    · cases h
  · cases h

/-! ## Where no trivia begins -/

/-- Whether a text begins as trivia does. -/
def opensTrivia : List Char → Bool
  | [] => false
  | c :: rest =>
    isBlank c || c = '\n' || (c = '\r' && rest.head? = some '\n') ||
      (c = '/' && (rest.head? = some '/' || rest.head? = some '*'))

theorem front_eq_other_iff {cs : List Char} : front cs = .other ↔ opensTrivia cs = false := by
  unfold front
  split
  · simp [opensTrivia]
  · simp [opensTrivia]
  · simp [opensTrivia]
  · split <;> simp [opensTrivia]
  · next c rest hbreak hline hslash hstar =>
    -- The patterns that did not match, in terms of the second character.
    have hreturn : c = '\r' → rest.head? ≠ some '\n' := by
      intro hc hhead
      obtain ⟨more, hrest⟩ := List.head?_eq_some_iff.mp hhead
      exact hbreak more hc hrest
    have hcomment : c = '/' → rest.head? ≠ some '/' ∧ rest.head? ≠ some '*' := by
      intro hc
      constructor
      · intro hhead
        obtain ⟨more, hrest⟩ := List.head?_eq_some_iff.mp hhead
        exact hslash more hc hrest
      · intro hhead
        obtain ⟨more, hrest⟩ := List.head?_eq_some_iff.mp hhead
        exact hstar more hc hrest
    split
    · next hblank => simp [opensTrivia, hblank]
    · next hblank =>
      simp only [opensTrivia, hblank]
      simpa using ⟨⟨hline, hreturn⟩, hcomment⟩
  · simp [opensTrivia]

/-- Two characters tell whether trivia begins. -/
theorem opensTrivia_take (cs : List Char) : opensTrivia (cs.take 2) = opensTrivia cs := by
  cases cs with
  | nil => rfl
  | cons c rest => simp [opensTrivia, List.head?_take]

/-- Where no trivia begins none does when some of the text behind is cut off. -/
theorem front_eq_other_of_isPrefix {after rest : List Char} (h : after <+: rest)
    (hother : front rest = .other) : front after = .other := by
  rw [front_eq_other_iff] at hother ⊢
  cases after with
  | nil => rfl
  | cons c after =>
    obtain ⟨more, rfl⟩ := h
    -- The second character is the same, or there is none any more.
    cases after with
    | nil => simp_all [opensTrivia]
    | cons d after => exact hother

/-! ## Tokens -/

/-- An operator of one character stays one before what makes no pair with it. -/
theorem word_operator {c : Char} {after : List Char} (hpunctuation : punctuation? c = none)
    (hstart : ¬ isWordStart c = true) (hdigit : ¬ c.isDigit = true)
    (hoperator : isOperator c = true)
    (hpair : ∀ d ∈ after.head?, isOperatorPair c d = false) :
    word c after = some (.operator, [], after) := by
  cases after with
  | nil => simp [word, hpunctuation, hstart, hdigit, hoperator]
  | cons d after => simp [word, hpunctuation, hstart, hdigit, hoperator, hpair d rfl]

/-- A token is read the same before a text that goes on as the one behind it, or with a blank. -/
theorem word_cut {c : Char} {cs more behind after : List Char} {kind : Kind}
    (h : word c cs = some (kind, more, behind))
    (hafter : Resumes after behind ∨ Text.Before ' ' after) :
    word c (more ++ after) = some (kind, more, after) := by
  -- What was behind the token is past the class it is made of, and so is a blank.
  have hpast : ∀ {p : Char → Bool}, behind = cs.dropWhile p → p ' ' = false →
      Text.Past p after := by
    intro p hbehind hblank
    rcases hafter with hresumes | hbefore
    · exact past_cut (hbehind ▸ hresumes)
    · exact hbefore.past hblank
  -- What was behind an operator makes no pair with it, and neither does a blank.
  have hsingle : (∀ d ∈ behind.head?, isOperatorPair c d = false) →
      ∀ d ∈ after.head?, isOperatorPair c d = false := by
    intro hnot d hd
    rcases hafter with hresumes | hbefore
    · exact hnot d (hresumes d hd)
    · obtain rfl := Option.some.inj (hd.symm.trans hbefore)
      simp [isOperatorPair]
  unfold word at h
  split at h
  · next hpunctuation =>
    cases h
    simp only [word, hpunctuation, List.nil_append]
  · next hpunctuation =>
    split at h
    · next hstart =>
      cases h
      simp [word, hpunctuation, hstart, takeWhile_cut (hpast rfl rfl),
        dropWhile_cut (hpast rfl rfl)]
    · next hstart =>
      split at h
      · next hdigit =>
        cases h
        simp [word, hpunctuation, hstart, hdigit, takeWhile_cut (hpast rfl rfl),
          dropWhile_cut (hpast rfl rfl)]
      · next hdigit =>
        split at h
        · next hoperator =>
          split at h
          · next d rest =>
            split at h
            · next hpair =>
              cases h
              simp [word, hpunctuation, hstart, hdigit, hoperator, hpair]
            · next hpair =>
              cases h
              refine word_operator hpunctuation hstart hdigit hoperator (hsingle fun e he => ?_)
              obtain rfl := Option.some.inj he
              exact Bool.eq_false_iff.mpr hpair
          · cases h
            exact word_operator hpunctuation hstart hdigit hoperator (hsingle nofun)
        · cases h

/-! ## Runs -/

namespace Runs

variable {ofLine : Bool} {cs rest after : List Char} {pieces : List Piece}

/-- **A run of trivia is read the same before another text** that begins as the text behind
the run did. -/
theorem onto (h : Runs ofLine cs pieces rest) (hafter : Resumes after rest)
    (hother : front rest = .other → front after = .other) :
    Runs ofLine (pieceChars pieces ++ after) pieces after := by
  induction h with
  | stop hfront => exact .stop (hother hfront)
  | lineBreak hline hfront =>
    refine .lineBreak hline ?_
    simpa [Piece.chars] using front_cut hfront hafter
  | @more cs text mid rest kind pieces hkind hfront hrest ih =>
    have hmid : Resumes (pieceChars pieces ++ after) mid :=
      hrest.chars_eq ▸ hafter.append (pieceChars pieces)
    refine .more hkind ?_ (ih hafter hother)
    rw [pieceChars_cons, List.append_assoc, Piece.chars, String.toList_ofList]
    exact front_cut hfront hmid

/-- **Two characters are enough** to read a run of trivia before another text. -/
theorem onto_take (h : Runs ofLine cs pieces rest) (htake : after.take 2 = rest.take 2) :
    Runs ofLine (pieceChars pieces ++ after) pieces after := by
  refine h.onto (resumes_of_take htake) fun hother => ?_
  rw [front_eq_other_iff, ← opensTrivia_take] at hother ⊢
  rw [htake, hother]

/-- **A run of trivia is read the same before less text.** -/
theorem before (h : Runs ofLine cs pieces rest) (hafter : after <+: rest) :
    Runs ofLine (pieceChars pieces ++ after) pieces after :=
  h.onto (resumes_of_isPrefix hafter) (front_eq_other_of_isPrefix hafter)

/-- A run of trivia is read the same on its own, with all that follows it cut off. -/
theorem cut (h : Runs ofLine cs pieces rest) : Runs ofLine (pieceChars pieces) pieces [] := by
  simpa using h.before List.nil_prefix

end Runs
end Lexeme
end SpacingLint
