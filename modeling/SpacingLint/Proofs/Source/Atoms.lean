import SpacingLint.Proofs.Source.Gap
import SpacingLint.Proofs.Tree.Fidelity

/-! # What a text falls into

A text falls into atoms, which are pieces of trivia and tokens.  What an atom is shows only
from where it stands: a name ends where no letter follows, an operator may be half of a longer
one, a comment ends at its first closing delimiter.  `Atom.Fits` says for each kind of atom how
it is written and what may stand on either side of it.  It lists operators and characters itself,
and the tests of the lexer are shown to go by the same lists (`Lexeme.isOperatorPair_iff`,
`Lexeme.isWordPart_eq`).

Two things are to be shown of the atoms that are read (`Reads`), one about either side.  To the
right each atom is as long as the text behind it allows, which is how the scanning functions
take it.  To the left nothing could be added to it, for no run of a class of characters goes on
where the text has been cut (`Sealed`): whatever atom the characters of such a run began in
would have taken all of it.  This is kept from cut to cut (`Sealed.step`), so it holds along the
whole text (`Reads.fits`).
-/
namespace SpacingLint

/-- What a source text is cut into. -/
inductive Atom where
  /-- A piece of trivia. -/
  | trivia (piece : Piece)
  /-- A token, without the trivia around it. -/
  | token (kind : Kind) (text : String)

/-- The characters of an atom. -/
def Atom.chars : Atom → List Char
  | .trivia piece => piece.chars
  | .token _ text => text.toList

/-- The classes of characters of which a run makes one atom. -/
inductive RunClass where
  /-- Blanks and tabs. -/
  | blanks
  /-- Letters, digits and underscores, of which the first is no digit. -/
  | word
  /-- Digits. -/
  | digits

namespace RunClass

/-- The characters a run begins with. -/
def begins : RunClass → Char → Bool
  | .blanks, c => c = ' ' || c = '\t'
  | .word, c => 'A' ≤ c && c ≤ 'Z' || 'a' ≤ c && c ≤ 'z' || c = '_'
  | .digits, c => '0' ≤ c && c ≤ '9'

/-- The characters a run goes on with. -/
def goesOn : RunClass → Char → Bool
  | .blanks, c => blanks.begins c
  | .word, c => word.begins c || digits.begins c
  | .digits, c => digits.begins c

/-- A run of a class, which is not empty. -/
def Run (cl : RunClass) : List Char → Prop
  | [] => False
  | c :: more => cl.begins c = true ∧ ∀ d ∈ more, cl.goesOn d = true

end RunClass

/-- Some text has a property, and no longer stretch around it does. -/
def Longest (property : List Char → Prop) (before text after : List Char) : Prop :=
  property text ∧ ∀ left right, left <:+ before → right <+: after →
    property (left ++ text ++ right) → left = [] ∧ right = []

/-- What kind of token a word is: `if` and `else` are keywords, any other word is a name. -/
def IsWordKind (word : List Char) : Kind → Prop
  | .ifKeyword => word = ['i', 'f']
  | .elseKeyword => word = ['e', 'l', 's', 'e']
  | .identifier => word ≠ ['i', 'f'] ∧ word ≠ ['e', 'l', 's', 'e']
  | _ => False

/-- The tokens of one character that stand for themselves. -/
def punctuation : List (Kind × Char) :=
  [(.openParen, '('), (.closeParen, ')'), (.openBrace, '\x7b'), (.closeBrace, '\x7d'),
    (.semicolon, ';')]

/-- The operators of one character. -/
def operators : List Char := ['+', '-', '*', '/', '%', '<', '>', '=', '!', '&', '|']

/-- The operators of two characters. -/
def operatorPairs : List (Char × Char) :=
  [('=', '='), ('!', '='), ('<', '='), ('>', '='), ('&', '&'), ('|', '|')]

/-- **What an atom is** between the text before it and the text after it. -/
inductive Atom.Fits (before after : List Char) : Atom → Prop
  /-- As many blanks and tabs as there are. -/
  | blanks {text : List Char} (hlongest : Longest RunClass.blanks.Run before text after) :
      Fits before after (.trivia ⟨.whitespace, String.ofList text⟩)
  /-- A line feed, alone or after a carriage return. -/
  | lineBreak {text : List Char} (htext : text = ['\n'] ∨ text = ['\r', '\n']) :
      Fits before after (.trivia ⟨.endOfLine, String.ofList text⟩)
  /-- A comment up to the end of its line. -/
  | lineComment {body : List Char} (hbody : ∀ c ∈ body, c ≠ '\n' ∧ c ≠ '\r')
      (hafter : after = [] ∨ ['\n'] <+: after ∨ ['\r', '\n'] <+: after) :
      Fits before after (.trivia ⟨.singleLineComment, String.ofList ('/' :: '/' :: body)⟩)
  /-- A comment up to the first closing delimiter behind the opening one. -/
  | comment {body : List Char} (hbody : ¬ ['*', '/'] <:+: body ++ ['*']) :
      Fits before after
        (.trivia ⟨.multiLineComment, String.ofList ('/' :: '*' :: (body ++ ['*', '/']))⟩)
  /-- One of five characters. -/
  | punctuation {kind : Kind} {c : Char} (hmem : (kind, c) ∈ punctuation) :
      Fits before after (.token kind (String.ofList [c]))
  /-- A word of which no letter is left out. -/
  | word {kind : Kind} {text : List Char} (hlongest : Longest RunClass.word.Run before text after)
      (hkind : IsWordKind text kind) : Fits before after (.token kind (String.ofList text))
  /-- As many digits as there are. -/
  | number {text : List Char} (hlongest : Longest RunClass.digits.Run before text after) :
      Fits before after (.token .numberLiteral (String.ofList text))
  /-- An operator of two characters. -/
  | operatorPair {c d : Char} (hpair : (c, d) ∈ operatorPairs) :
      Fits before after (.token .operator (String.ofList [c, d]))
  /-- An operator of one character, where none of two and no comment begins. -/
  | operator {c : Char} (hoperator : c ∈ operators)
      (hpair : ∀ d ∈ after.head?, (c, d) ∉ operatorPairs)
      (hcomment : c = '/' → ∀ d ∈ after.head?, d ≠ '/' ∧ d ≠ '*') :
      Fits before after (.token .operator (String.ofList [c]))
  /-- The end of the text. -/
  | endOfFile (hafter : after = []) : Fits before after (.token .endOfFile "")

/-! ## Runs of a class -/

namespace RunClass

variable {cl : RunClass} {text after : List Char} {c : Char}

/-- A run goes on with whatever it can begin with. -/
theorem goesOn_of_begins (h : cl.begins c = true) : cl.goesOn c = true := by
  cases cl with
  | blanks | digits => exact h
  | word => exact Bool.or_eq_true_iff.mpr (.inl h)

theorem Run.goesOn (h : cl.Run text) (hc : c ∈ text) : cl.goesOn c = true := by
  cases text with
  | nil => exact h.elim
  | cons d more =>
    rcases List.mem_cons.mp hc with rfl | hc
    · exact goesOn_of_begins h.1
    · exact h.2 c hc

theorem Run.ne_nil (h : cl.Run text) : text ≠ [] := by
  rintro rfl
  exact h

/-- The front of a run is a run. -/
theorem Run.left (h : cl.Run (text ++ after)) (hne : text ≠ []) : cl.Run text := by
  obtain ⟨c, more, rfl⟩ := List.exists_cons_of_ne_nil hne
  exact ⟨h.1, fun d hd => h.2 d (List.mem_append_left _ hd)⟩

/-- Digits may stand in words. -/
theorem goesOn_word_of_digits (h : digits.begins c = true) : word.goesOn c = true :=
  Bool.or_eq_true_iff.mpr (.inr h)

theorem goesOn_word_of_blanks (h : blanks.begins c = true) : word.goesOn c = false := by
  have hc : c = ' ' ∨ c = '\t' := by simpa [begins] using h
  rcases hc with rfl | rfl <;> rfl

/-- Digits do not begin words. -/
theorem begins_word_of_digits (h : digits.begins c = true) : word.begins c = false := by
  have hnine : c ≤ '9' := of_decide_eq_true (Bool.and_eq_true_iff.mp h).2
  have hbehind : ∀ d : Char, '9' < d → decide (d ≤ c) = false := fun d hd =>
    decide_eq_false fun hle => absurd (Char.le_trans hle hnine) (Char.not_le.mpr hd)
  have hne : c ≠ '_' := by
    rintro rfl
    cases h
  rw [begins, hbehind 'A' (by decide), hbehind 'a' (by decide), decide_eq_false hne]
  rfl

/-- A class that begins within a run of another goes on no further than that does. -/
theorem goesOn_within {other : RunClass} {d : Char} (hbegins : other.begins c = true)
    (hc : cl.goesOn c = true) (hd : other.goesOn d = true) : cl.goesOn d = true := by
  cases cl with
  | blanks =>
    have hpart := Bool.eq_false_iff.mp (goesOn_word_of_blanks hc)
    cases other with
    | blanks => exact hd
    | word => exact absurd (goesOn_of_begins hbegins) hpart
    | digits => exact absurd (goesOn_word_of_digits hbegins) hpart
  | word =>
    cases other with
    | blanks => exact absurd hc (Bool.eq_false_iff.mp (goesOn_word_of_blanks hbegins))
    | word => exact hd
    | digits => exact goesOn_word_of_digits hd
  | digits =>
    cases other with
    | blanks =>
      exact absurd (goesOn_word_of_digits hc) (Bool.eq_false_iff.mp (goesOn_word_of_blanks hbegins))
    | word => exact absurd hbegins (Bool.eq_false_iff.mp (begins_word_of_digits hc))
    | digits => exact hd

end RunClass

/-- A character of no class. -/
def Apart (c : Char) : Prop := ∀ cl : RunClass, cl.goesOn c = false

theorem apart_of_punctuation {kind : Kind} {c : Char} (h : (kind, c) ∈ punctuation) : Apart c := by
  intro cl
  have hall : punctuation.all (!cl.goesOn ·.2) = true := by cases cl <;> rfl
  simpa using List.all_eq_true.mp hall _ h

theorem apart_of_operator {c : Char} (h : c ∈ operators) : Apart c := by
  intro cl
  have hall : operators.all (!cl.goesOn ·) = true := by cases cl <;> rfl
  simpa using List.all_eq_true.mp hall c h

/-- The second half of an operator could be an operator as well. -/
theorem mem_operators_of_pair {c d : Char} (h : (c, d) ∈ operatorPairs) : d ∈ operators := by
  have hall : operatorPairs.all (operators.contains ·.2) = true := rfl
  exact List.contains_iff_mem.mp (List.all_eq_true.mp hall _ h)

/-! ## Cuts -/

/-- No run goes on where a text is cut. -/
def Sealed (before after : List Char) : Prop :=
  ∀ cl : RunClass, ∀ left, left <:+ before → cl.Run left → Text.Past cl.goesOn after

namespace Sealed

variable {before text after : List Char} {cl : RunClass}

theorem nil (after : List Char) : Sealed [] after := by
  intro cl left hleft hrun
  exact absurd (List.suffix_nil.mp hleft) hrun.ne_nil

/-- No run goes on behind a character of no class. -/
theorem of_concat (front : List Char) {c : Char} (h : Apart c) : Sealed (front ++ [c]) after := by
  intro cl left hleft hrun
  have hlast : left.getLast hrun.ne_nil = c := by
    rw [hleft.getLast hrun.ne_nil, List.getLast_concat]
  have hgoes := hrun.goesOn (List.getLast_mem hrun.ne_nil)
  rw [hlast] at hgoes
  exact absurd hgoes (Bool.eq_false_iff.mp (h cl))

/-- No run goes on with a character of no class. -/
theorem of_head (h : ∀ c ∈ after.head?, Apart c) : Sealed text after :=
  fun cl _ _ _ c hc => h c hc cl

/-- No run goes on behind one that takes all it can. -/
theorem of_run (hrun : cl.Run text) (hpast : Text.Past cl.goesOn after) : Sealed text after := by
  rintro other left ⟨front, rfl⟩ hleft d hd
  obtain ⟨c, more, rfl⟩ := List.exists_cons_of_ne_nil hleft.ne_nil
  have hc := hrun.goesOn (c := c) (by simp)
  refine Bool.eq_false_iff.mpr fun hgoes => ?_
  exact absurd (RunClass.goesOn_within hleft.1 hc hgoes) (Bool.eq_false_iff.mp (hpast d hd))

/-- **From cut to cut**: if no run goes on behind some text but out of the text itself, then
none does unless it came into the text. -/
theorem step (h : Sealed before (text ++ after)) (hne : text ≠ []) (htext : Sealed text after) :
    Sealed (before ++ text) after := by
  intro cl left hleft hrun
  obtain ⟨front, heq⟩ := hleft
  rcases List.append_eq_append_iff.mp heq with ⟨within, rfl, rfl⟩ | ⟨behind, rfl, rfl⟩
  · -- The run came into the text, so it began before, where no run goes on.
    obtain ⟨c, more, rfl⟩ := List.exists_cons_of_ne_nil hne
    cases within with
    | nil => exact htext cl _ (List.suffix_refl _) hrun
    | cons d within =>
      have hcut := h cl (d :: within) (List.suffix_append ..) (hrun.left nofun) c rfl
      exact absurd (hrun.goesOn (by simp)) (Bool.eq_false_iff.mp hcut)
  · exact htext cl left (List.suffix_append ..) hrun

/-- A run is as long as possible if it takes all it can of what follows. -/
theorem longest (h : Sealed before (text ++ after)) (hrun : cl.Run text)
    (hpast : Text.Past cl.goesOn after) : Longest cl.Run before text after := by
  refine ⟨hrun, fun left right hleft hright hlonger => ⟨?_, ?_⟩⟩
  · cases left with
    | nil => rfl
    | cons d left =>
      obtain ⟨c, more, rfl⟩ := List.exists_cons_of_ne_nil hrun.ne_nil
      have hfront : cl.Run (d :: left ++ (c :: more ++ right)) := by simpa using hlonger
      have hcut := h cl (d :: left) hleft (hfront.left nofun) c rfl
      exact absurd (hrun.goesOn (List.mem_cons_self ..)) (Bool.eq_false_iff.mp hcut)
  · cases right with
    | nil => rfl
    | cons d right =>
      obtain ⟨rest, rfl⟩ := hright
      exact absurd (hlonger.goesOn (by simp)) (Bool.eq_false_iff.mp (hpast d rfl))

end Sealed

namespace Lexeme

/-! ## The lexer's tests -/

theorem isBlank_eq : isBlank = RunClass.blanks.begins := rfl

theorem isDigit_eq : Char.isDigit = RunClass.digits.begins := rfl

theorem isWordStart_eq : isWordStart = RunClass.word.begins := by
  funext c
  have hupper : c.isUpper = (decide ('A' ≤ c) && decide (c ≤ 'Z')) := Bool.decide_and ..
  show (c.isUpper || c.isLower || decide (c = '_')) = RunClass.word.begins c
  rw [hupper]
  rfl

theorem isWordPart_eq : isWordPart = RunClass.word.goesOn := by
  funext c
  rw [RunClass.goesOn, ← isWordStart_eq, ← isDigit_eq, isWordPart, isWordStart, Char.isAlphanum,
    Bool.or_right_comm]

theorem isOperator_iff {c : Char} : isOperator c = true ↔ c ∈ operators := List.contains_iff_mem

theorem isOperatorPair_iff {c d : Char} : isOperatorPair c d = true ↔ (c, d) ∈ operatorPairs :=
  List.contains_iff_mem

/-! ## What the scanning functions take -/

variable {cs text rest : List Char}

/-- A comment is cut at its first closing delimiter. -/
theorem exists_body_of_cutComment {cut : List Char} (h : cutComment cs = some (cut, rest)) :
    ∃ body, cut = body ++ ['*', '/'] ∧ ¬ ['*', '/'] <:+: body ++ ['*'] := by
  fun_induction cutComment cs generalizing cut with
  | case1 => cases h
  | case2 =>
    cases h
    exact ⟨[], rfl, fun hinfix => by simpa using hinfix.length_le⟩
  | case3 c more hnot ih =>
    obtain ⟨⟨inner, after⟩, hcut, heq⟩ := Option.map_eq_some_iff.mp h
    cases heq
    obtain ⟨body, rfl, hbody⟩ := ih hcut
    refine ⟨c :: body, rfl, fun hinfix => ?_⟩
    rcases List.infix_cons_iff.mp hinfix with ⟨tail, htail⟩ | hinfix
    · -- The delimiter would begin at `c`, where none does.
      obtain ⟨rfl, hbegins⟩ := List.cons.inj htail
      have hmore : more = body ++ ['*'] ++ ('/' :: after) := by
        simpa using (append_of_cutComment hcut).symm
      have hbegins : ['/'] ++ tail = body ++ ['*'] := hbegins
      rw [← hbegins] at hmore
      exact hnot (tail ++ '/' :: after) rfl hmore
    · exact hbody hinfix

theorem past_dropWhile (p : Char → Bool) (cs : List Char) : Text.Past p (cs.dropWhile p) :=
  past_cut fun _ hc => hc

/-- **What trivia is**, as far as the text behind it decides. -/
theorem front_cases {kind : TriviaKind} (h : front cs = .trivia kind text rest) :
    (kind = .endOfLine ∧ (text = ['\n'] ∨ text = ['\r', '\n'])) ∨
      (kind = .singleLineComment ∧ ∃ body, text = '/' :: '/' :: body ∧
        (∀ c ∈ body, isLineEnd c = false) ∧ ∀ c ∈ rest.head?, isLineEnd c = true) ∨
      (kind = .multiLineComment ∧ ∃ body, text = '/' :: '*' :: (body ++ ['*', '/']) ∧
        ¬ ['*', '/'] <:+: body ++ ['*']) ∨
      (kind = .whitespace ∧ RunClass.blanks.Run text ∧ Text.Past RunClass.blanks.goesOn rest) := by
  unfold front at h
  split at h
  · cases h; exact .inl ⟨rfl, .inr rfl⟩
  · cases h; exact .inl ⟨rfl, .inl rfl⟩
  · next more =>
    cases h
    refine .inr (.inl ⟨rfl, _, rfl, ?_, ?_⟩)
    · intro c hc
      simpa using List.all_eq_true.mp List.all_takeWhile c hc
    · intro c hc
      simpa using past_dropWhile (!isLineEnd ·) more c hc
  · split at h
    · next hcut =>
      cases h
      obtain ⟨body, rfl, hbody⟩ := exists_body_of_cutComment hcut
      exact .inr (.inr (.inl ⟨rfl, body, rfl, hbody⟩))
    · cases h
  · rw [isBlank_eq] at h
    split at h
    · next hblank =>
      cases h
      exact .inr (.inr (.inr ⟨rfl, ⟨hblank, List.all_eq_true.mp List.all_takeWhile⟩,
        past_dropWhile _ _⟩))
    · cases h
  · cases h

theorem isWordKind_wordKind (word : List Char) : IsWordKind word (wordKind word) := by
  unfold wordKind
  split
  · assumption
  · split
    · assumption
    · exact ⟨‹_›, ‹_›⟩

/-- **What a token is**, as far as the text behind it decides. -/
theorem word_cases {c : Char} {more : List Char} {kind : Kind}
    (h : word c cs = some (kind, more, rest)) :
    ((kind, c) ∈ punctuation ∧ more = []) ∨
      (RunClass.word.Run (c :: more) ∧ Text.Past RunClass.word.goesOn rest ∧
        IsWordKind (c :: more) kind) ∨
      (kind = .numberLiteral ∧ RunClass.digits.Run (c :: more) ∧
        Text.Past RunClass.digits.goesOn rest) ∨
      (kind = .operator ∧ c ∈ operators ∧
        ((∃ d, more = [d] ∧ (c, d) ∈ operatorPairs) ∨
          more = [] ∧ ∀ d ∈ rest.head?, (c, d) ∉ operatorPairs)) := by
  unfold word at h
  rw [isWordStart_eq, isWordPart_eq, isDigit_eq] at h
  split at h
  · next hpunctuation =>
    cases h
    refine .inl ⟨?_, rfl⟩
    unfold punctuation? at hpunctuation
    split at hpunctuation <;> cases hpunctuation <;> decide
  · split at h
    · next hstart =>
      cases h
      refine .inr (.inl ⟨⟨hstart, List.all_eq_true.mp List.all_takeWhile⟩, past_dropWhile _ _, ?_⟩)
      exact isWordKind_wordKind _
    · split at h
      · next hdigit =>
        cases h
        exact .inr (.inr (.inl ⟨rfl, ⟨hdigit, List.all_eq_true.mp List.all_takeWhile⟩,
          past_dropWhile _ _⟩))
      · split at h
        · next hoperator =>
          have hoperator := isOperator_iff.mp hoperator
          refine .inr (.inr (.inr ?_))
          split at h
          · next d behind =>
            split at h
            · next hpair =>
              cases h
              exact ⟨rfl, hoperator, .inl ⟨d, rfl, isOperatorPair_iff.mp hpair⟩⟩
            · next hpair =>
              cases h
              refine ⟨rfl, hoperator, .inr ⟨rfl, fun e he => ?_⟩⟩
              obtain rfl := Option.some.inj he
              exact mt isOperatorPair_iff.mpr hpair
          · cases h
            exact ⟨rfl, hoperator, .inr ⟨rfl, nofun⟩⟩
        · cases h

/-- No run goes on behind a piece of trivia. -/
theorem sealed_of_front {kind : TriviaKind} (h : front cs = .trivia kind text rest) :
    Sealed text rest := by
  have hfeed : Apart '\n' := by rintro (_ | _ | _) <;> rfl
  rcases front_cases h with ⟨-, rfl | rfl⟩ | ⟨-, body, -, -, hrest⟩ | ⟨-, body, rfl, -⟩ |
      ⟨-, hrun, hpast⟩
  · exact .of_concat [] hfeed
  · exact .of_concat ['\r'] hfeed
  · refine .of_head fun c hc => ?_
    have hc : c = '\n' ∨ c = '\r' := by simpa [isLineEnd] using hrest c hc
    rcases hc with rfl | rfl <;> rintro (_ | _ | _) <;> rfl
  · have hcomment : Sealed ('/' :: '*' :: body ++ ['*'] ++ ['/']) rest :=
      .of_concat _ (apart_of_operator (by decide))
    simpa using hcomment
  · exact .of_run hrun hpast

/-- No run goes on behind a token. -/
theorem sealed_of_word {c : Char} {more : List Char} {kind : Kind}
    (h : word c cs = some (kind, more, rest)) : Sealed (c :: more) rest := by
  rcases word_cases h with ⟨hmem, rfl⟩ | ⟨hrun, hpast, -⟩ | ⟨-, hrun, hpast⟩ |
      ⟨-, hoperator, ⟨d, rfl, hpair⟩ | ⟨rfl, -⟩⟩
  · exact .of_concat [] (apart_of_punctuation hmem)
  · exact .of_run hrun hpast
  · exact .of_run hrun hpast
  · exact .of_concat [c] (apart_of_operator (mem_operators_of_pair hpair))
  · exact .of_concat [] (apart_of_operator hoperator)

/-! ## Reading atoms one by one -/

/-- Atoms that are read off a text one after the other, up to its end. -/
inductive Reads : List Char → List Atom → Prop
  /-- Nothing is left. -/
  | endOfFile : Reads [] [.token .endOfFile ""]
  /-- A piece of trivia. -/
  | trivia {cs text rest : List Char} {kind : TriviaKind} {later : List Atom}
      (hfront : front cs = .trivia kind text rest) (hlater : Reads rest later) :
      Reads cs (.trivia ⟨kind, String.ofList text⟩ :: later)
  /-- A token, where no trivia stands. -/
  | token {cs more rest : List Char} {c : Char} {kind : Kind} {later : List Atom}
      (hfront : front (c :: cs) = .other) (hword : word c cs = some (kind, more, rest))
      (hlater : Reads rest later) :
      Reads (c :: cs) (.token kind (String.ofList (c :: more)) :: later)

namespace Reads

variable {atoms : List Atom}

/-- The atoms that are read spell the text out. -/
theorem chars_eq (h : Reads cs atoms) : atoms.flatMap Atom.chars = cs := by
  induction h with
  | endOfFile => rfl
  | trivia hfront _ ih =>
    rw [List.flatMap_cons, ih, Atom.chars, Piece.chars, String.toList_ofList,
      append_of_front hfront]
  | token _ hword _ ih =>
    rw [List.flatMap_cons, ih, Atom.chars, String.toList_ofList, List.cons_append,
      append_of_word hword]

/-- A carriage return where an atom begins stands before a line feed. -/
theorem exists_lineFeed (h : Reads ('\r' :: cs) atoms) : ∃ more, cs = '\n' :: more := by
  generalize hcs : '\r' :: cs = all at h
  cases h with
  | endOfFile => cases hcs
  | trivia hfront =>
    have hall := append_of_front hfront
    rw [← hcs] at hall
    rcases front_cases hfront with ⟨-, rfl | rfl⟩ | ⟨-, body, rfl, -⟩ | ⟨-, body, rfl, -⟩ |
        ⟨-, hrun, -⟩
    · cases hall
    · exact ⟨_, (List.cons.inj hall).2.symm⟩
    · cases hall
    · cases hall
    · obtain ⟨c, more, rfl⟩ := List.exists_cons_of_ne_nil hrun.ne_nil
      obtain ⟨rfl, -⟩ := List.cons.inj hall
      cases hrun.1
  | token _ hword =>
    obtain ⟨rfl, rfl⟩ := List.cons.inj hcs
    cases hword

/-- What a piece of trivia is, where it is read. -/
theorem fits_trivia {before : List Char} {kind : TriviaKind}
    (hfront : front cs = .trivia kind text rest) (hlater : Reads rest atoms)
    (hsealed : Sealed before cs) :
    (Atom.trivia ⟨kind, String.ofList text⟩).Fits before rest := by
  rw [← append_of_front hfront] at hsealed
  rcases front_cases hfront with ⟨rfl, htext⟩ | ⟨rfl, body, rfl, hbody, hrest⟩ |
      ⟨rfl, body, rfl, hbody⟩ | ⟨rfl, hrun, hpast⟩
  · exact .lineBreak htext
  · refine .lineComment (fun c hc => by simpa [isLineEnd] using hbody c hc) ?_
    cases rest with
    | nil => exact .inl rfl
    | cons d rest =>
      have hd : d = '\n' ∨ d = '\r' := by simpa [isLineEnd] using hrest d rfl
      rcases hd with rfl | rfl
      · exact .inr (.inl (by simp))
      · obtain ⟨more, rfl⟩ := hlater.exists_lineFeed
        exact .inr (.inr (by simp))
  · exact .comment hbody
  · exact .blanks (hsealed.longest hrun hpast)

/-- What a token is, where it is read. -/
theorem fits_token {before more : List Char} {c : Char} {kind : Kind}
    (hfront : front (c :: cs) = .other) (hword : word c cs = some (kind, more, rest))
    (hsealed : Sealed before (c :: cs)) :
    (Atom.token kind (String.ofList (c :: more))).Fits before rest := by
  have hsealed : Sealed before (c :: more ++ rest) := by
    rwa [List.cons_append, append_of_word hword]
  rcases word_cases hword with ⟨hmem, rfl⟩ | ⟨hrun, hpast, hkind⟩ | ⟨rfl, hrun, hpast⟩ |
      ⟨rfl, hoperator, ⟨d, rfl, hpair⟩ | ⟨rfl, hpair⟩⟩
  · exact .punctuation hmem
  · exact .word (hsealed.longest hrun hpast) hkind
  · exact .number (hsealed.longest hrun hpast)
  · exact .operatorPair hpair
  · refine .operator hoperator hpair ?_
    rintro rfl d hd
    obtain ⟨behind, rfl⟩ : ∃ behind, rest = d :: behind := List.head?_eq_some_iff.mp hd
    obtain rfl := append_of_word hword
    refine ⟨?_, ?_⟩ <;> rintro rfl
    · cases hfront
    · simp only [List.nil_append, front] at hfront
      split at hfront <;> cases hfront

/-- **Every atom that is read is what it is said to be**, whatever no run of which goes on with
the text stands before. -/
theorem fits (h : Reads cs atoms) {done : List Char} (hdone : Sealed done cs)
    {before after : List Atom} {atom : Atom} (hatoms : atoms = before ++ atom :: after) :
    atom.Fits (done ++ before.flatMap Atom.chars) (after.flatMap Atom.chars) := by
  induction h generalizing done before with
  | endOfFile =>
    obtain ⟨rfl, rfl, rfl⟩ : before = [] ∧ atom = .token .endOfFile "" ∧ after = [] := by
      cases before <;> simp_all
    exact .endOfFile rfl
  | @trivia cs text rest kind later hfront hlater ih =>
    cases before with
    | nil =>
      obtain ⟨rfl, rfl⟩ := List.cons.inj hatoms
      rw [hlater.chars_eq, List.flatMap_nil, List.append_nil]
      exact fits_trivia hfront hlater hdone
    | cons first before =>
      obtain ⟨rfl, hlater⟩ := List.cons.inj hatoms
      rw [← append_of_front hfront] at hdone
      have hfits := ih (hdone.step (ne_nil_of_front hfront) (sealed_of_front hfront)) hlater
      simpa [Atom.chars, Piece.chars] using hfits
  | @token cs more rest c kind later hfront hword hlater ih =>
    cases before with
    | nil =>
      obtain ⟨rfl, rfl⟩ := List.cons.inj hatoms
      rw [hlater.chars_eq, List.flatMap_nil, List.append_nil]
      exact fits_token hfront hword hdone
    | cons first before =>
      obtain ⟨rfl, hlater⟩ := List.cons.inj hatoms
      rw [← append_of_word hword, ← List.cons_append] at hdone
      have hfits := ih (hdone.step (List.cons_ne_nil _ _) (sealed_of_word hword)) hlater
      simpa [Atom.chars] using hfits

end Reads

/-! ## The atoms of lexemes -/

/-- The atoms of a lexeme. -/
def atoms (lexeme : Lexeme) : List Atom :=
  lexeme.leading.map .trivia ++ .token lexeme.kind lexeme.text :: lexeme.trailing.map .trivia

namespace Runs

variable {ofLine : Bool} {pieces : List Piece}

/-- A run of trivia is read piece by piece. -/
theorem reads (h : Runs ofLine cs pieces rest) {later : List Atom} (hlater : Reads rest later) :
    Reads cs (pieces.map .trivia ++ later) := by
  induction h with
  | stop => exact hlater
  | lineBreak _ hfront => exact .trivia hfront hlater
  | more _ hfront _ ih => exact .trivia hfront (ih hlater)

/-- A run that ends with its line has no line break but at its end. -/
theorem kind_ne_of_dropLast (h : Runs true cs pieces rest) :
    ∀ piece ∈ pieces.dropLast, piece.kind ≠ .endOfLine := by
  induction h with
  | stop | lineBreak => nofun
  | @more cs text mid rest kind pieces hkind _ _ ih =>
    cases pieces with
    | nil => nofun
    | cons next pieces =>
      intro piece hpiece
      rcases List.mem_cons.mp hpiece with rfl | hpiece
      · exact hkind rfl
      · exact ih piece hpiece

end Runs

namespace Scanned

variable {offset : Nat} {lexemes : List Lexeme}

/-- A text is read atom by atom. -/
theorem reads (h : Scanned offset cs lexemes) : Reads cs (lexemes.flatMap atoms) := by
  induction h with
  | endOfFile hleading => simpa [atoms] using hleading.reads .endOfFile
  | token hleading hword htrailing _ ih =>
    have htoken := Reads.token hleading.front_eq_other hword (htrailing.reads ih)
    simpa [atoms] using hleading.reads htoken

/-- The trivia behind a token is a run that ends with its line. -/
theorem exists_runs (h : Scanned offset cs lexemes) {lexeme : Lexeme} (hmem : lexeme ∈ lexemes) :
    ∃ behind rest, Runs true behind lexeme.trailing rest := by
  induction h with
  | endOfFile =>
    obtain rfl := List.mem_singleton.mp hmem
    exact ⟨[], [], .stop rfl⟩
  | token _ _ htrailing _ ih =>
    rcases List.mem_cons.mp hmem with rfl | hmem
    · exact ⟨_, _, htrailing⟩
    · exact ih hmem

/-- The end of the file has no text, and nothing behind it. -/
theorem eq_of_endOfFile (h : Scanned offset cs lexemes) {lexeme : Lexeme}
    (hmem : lexeme ∈ lexemes) (hkind : lexeme.kind = .endOfFile) :
    lexeme.text = "" ∧ lexeme.trailing = [] := by
  induction h with
  | endOfFile =>
    obtain rfl := List.mem_singleton.mp hmem
    exact ⟨rfl, rfl⟩
  | token _ hword _ _ ih =>
    rcases List.mem_cons.mp hmem with rfl | hmem
    · exact absurd hkind (kind_ne_of_word hword)
    · exact ih hmem

end Scanned

/-- Trivia leads a lexeme only if its line ended before, with the trivia behind the last one. -/
theorem Adjoins.leading {before after : Lexeme} (h : before.Adjoins after)
    (hleading : after.leading ≠ []) :
    ∃ last ∈ before.trailing.getLast?, last.kind = .endOfLine := by
  obtain ⟨_, _, _, htrailing, hrun⟩ := h
  rcases htrailing.trailing with ⟨init, last, hinit, hlast⟩ | ⟨hfront, -⟩
  · exact ⟨last, by rw [hinit, List.getLast?_concat]; rfl, hlast⟩
  · exact absurd (hrun.eq_nil_of_other hfront) hleading

/-- **A text has been lexed**: it has fallen into the atoms it consists of, and each piece of
trivia belongs to a token. -/
structure Lexed (cs : List Char) (lexemes : List Lexeme) : Prop where
  /-- Leading trivia, text and trailing trivia of the lexemes spell out the text. -/
  lossless : lexemes.flatMap (fun lexeme =>
    pieceChars lexeme.leading ++ lexeme.text.toList ++ pieceChars lexeme.trailing) = cs
  /-- The offset of a lexeme counts the bytes before its own text. -/
  placed : ∀ before lexeme after, lexemes = before ++ lexeme :: after →
    lexeme.offset = Text.bytes (before.flatMap chars ++ pieceChars lexeme.leading)
  /-- The end of the file is the last lexeme and no other, with no text and nothing behind it. -/
  ended : ∃ init last, lexemes = init ++ [last] ∧ last.kind = .endOfFile ∧ last.text = "" ∧
    last.trailing = [] ∧ ∀ lexeme ∈ init, lexeme.kind ≠ .endOfFile
  /-- Every piece of trivia and every token is what it is said to be, where it stands. -/
  fits : ∀ before atom after, lexemes.flatMap atoms = before ++ atom :: after →
    atom.Fits (before.flatMap Atom.chars) (after.flatMap Atom.chars)
  /-- Of the trivia behind a token only the last piece may be a line break. -/
  trailing : ∀ lexeme ∈ lexemes, ∀ piece ∈ lexeme.trailing.dropLast, piece.kind ≠ .endOfLine
  /-- Behind another token, trivia leads a token only where a new line has begun. -/
  leading : ∀ init before after rest, lexemes = init ++ before :: after :: rest →
    after.leading ≠ [] → ∃ last ∈ before.trailing.getLast?, last.kind = .endOfLine

/-- **Lexing loses nothing, takes each atom for what it is, and lets a token own what follows
it on its line.** -/
theorem lexed_of_ofText {text : String} {lexemes : List Lexeme} (h : ofText text = .ok lexemes) :
    Lexed text.toList lexemes := by
  have hscanned := scanned_of_scan h
  refine ⟨hscanned.chars_eq, ?_, ?_, ?_, ?_, ?_⟩
  · rintro before lexeme after rfl
    obtain ⟨-, hoffset, -⟩ := placed_append.mp hscanned.placed
    rw [hoffset, Text.bytes_append, bytes_flatMap_chars, bytes_pieceChars, Nat.zero_add]
  · obtain ⟨init, last, rfl, hlast, hinit⟩ := hscanned.endOfFile_last
    obtain ⟨htext, htrailing⟩ := hscanned.eq_of_endOfFile (by simp) hlast
    exact ⟨init, last, rfl, hlast, htext, htrailing, hinit⟩
  · intro before atom after hatoms
    exact hscanned.reads.fits (.nil _) hatoms
  · intro lexeme hlexeme
    obtain ⟨_, _, hruns⟩ := hscanned.exists_runs hlexeme
    exact hruns.kind_ne_of_dropLast
  · rintro init before after rest rfl
    exact hscanned.adjoins.leading

/-- A division that is no comment, a comment behind it, and a line break of two characters. -/
theorem lexed_of_ofText_division : ∃ lexemes, ofText "a1/2b//c\r\n d" = .ok lexemes ∧
    lexemes.map Lexeme.text = ["a1", "/", "2", "b", "d", ""] ∧
      lexemes.map trailing = [[], [], [], [⟨.singleLineComment, "//c"⟩, ⟨.endOfLine, "\r\n"⟩],
        [], []] ∧ Lexed "a1/2b//c\r\n d".toList lexemes := by
  have hlexemes : (ofText "a1/2b//c\r\n d").toOption.map (fun lexemes =>
      (lexemes.map Lexeme.text, lexemes.map trailing)) = some (["a1", "/", "2", "b", "d", ""],
        [[], [], [], [⟨.singleLineComment, "//c"⟩, ⟨.endOfLine, "\r\n"⟩], [], []]) := by
    decide +kernel
  obtain ⟨lexemes, htext, hboth⟩ := Option.map_eq_some_iff.mp hlexemes
  obtain ⟨htexts, htrailing⟩ := Prod.mk.inj hboth
  have htext := eq_ok_of_toOption htext
  exact ⟨lexemes, htext, htexts, htrailing, lexed_of_ofText htext⟩

end Lexeme
end SpacingLint
