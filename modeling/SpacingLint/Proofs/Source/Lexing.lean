import SpacingLint.Source.Lexeme

/-! # A text falls into lexemes without loss

What the lexer reads is described by two relations that leave errors and offsets out of
the way: `Runs` for a run of trivia and `Scanned` for a whole text, each with one rule
for every way in which the scanning functions can succeed.  Along them it is shown that
the lexemes of a text spell it out again (`Scanned.chars_eq`), that each stands at the
offset it names (`Scanned.placed`), and that the end of the file is the last of them and
no other (`Scanned.endOfFile_last`).
-/
namespace SpacingLint

/-- The characters of a piece of trivia. -/
def Piece.chars (piece : Piece) : List Char := piece.text.toList

namespace Lexeme

/-- The characters of some pieces of trivia, one after the other. -/
def pieceChars (pieces : List Piece) : List Char := pieces.flatMap Piece.chars

@[simp] theorem pieceChars_nil : pieceChars [] = [] := rfl

@[simp] theorem pieceChars_cons (piece : Piece) (rest : List Piece) :
    pieceChars (piece :: rest) = piece.chars ++ pieceChars rest := rfl

@[simp] theorem pieceChars_append (pieces more : List Piece) :
    pieceChars (pieces ++ more) = pieceChars pieces ++ pieceChars more :=
  List.flatMap_append

theorem bytes_pieceChars (pieces : List Piece) : Text.bytes (pieceChars pieces) = size pieces := by
  induction pieces with
  | nil => rfl
  | cons piece rest ih =>
    rw [pieceChars_cons, Text.bytes_append, ih, Piece.chars, ← Text.utf8ByteSize_eq_bytes]
    rfl

/-! ## Runs of trivia -/

/-- A run of trivia at the front of a text, and the text after it.  If `ofLine` is set,
the run ends with the first line break. -/
inductive Runs (ofLine : Bool) : List Char → List Piece → List Char → Prop
  /-- No trivia follows. -/
  | stop {cs : List Char} (hfront : front cs = .other) : Runs ofLine cs [] cs
  /-- A line break ends the run. -/
  | lineBreak {cs text rest : List Char} (hline : ofLine = true)
      (hfront : front cs = .trivia .endOfLine text rest) :
      Runs ofLine cs [⟨.endOfLine, String.ofList text⟩] rest
  /-- A piece of trivia, and the run goes on. -/
  | more {cs text mid rest : List Char} {kind : TriviaKind} {pieces : List Piece}
      (hkind : ofLine = true → kind ≠ .endOfLine) (hfront : front cs = .trivia kind text mid)
      (hrest : Runs ofLine mid pieces rest) :
      Runs ofLine cs (⟨kind, String.ofList text⟩ :: pieces) rest

theorem runs_of_run {ofLine : Bool} {offset : Nat} {cs rest : List Char} {pieces : List Piece}
    (h : run ofLine offset cs = .ok (pieces, rest)) : Runs ofLine cs pieces rest := by
  fun_induction run ofLine offset cs generalizing pieces rest with
  | case1 _ _ hfront => cases h; exact .stop hfront
  | case2 => cases h
  | case3 =>
    rename_i hfront _ hline
    cases h
    obtain ⟨hof, hkind⟩ := Bool.and_eq_true_iff.mp hline
    obtain rfl := of_decide_eq_true hkind
    exact .lineBreak hof hfront
  | case4 =>
    rename_i hfront _ hline _ _ hrun ih
    cases h
    refine .more (fun hof hkind => ?_) hfront (ih hrun)
    simp [hof, hkind] at hline
  | case5 => cases h

namespace Runs

variable {ofLine : Bool} {cs rest : List Char} {pieces : List Piece}

/-- The run that is described is the one that is read. -/
theorem run_eq (h : Runs ofLine cs pieces rest) (offset : Nat) :
    run ofLine offset cs = .ok (pieces, rest) := by
  induction h generalizing offset with
  | stop hfront => rw [run]; split <;> simp_all
  | lineBreak hline hfront => rw [run]; split <;> simp_all
  | more hkind hfront _ ih => rw [run]; split <;> simp_all

/-- Nothing is lost: the pieces of a run and the text after it make up the text. -/
theorem chars_eq (h : Runs ofLine cs pieces rest) : pieceChars pieces ++ rest = cs := by
  induction h with
  | stop => rfl
  | lineBreak _ hfront =>
    simpa [Piece.chars] using append_of_front hfront
  | more _ hfront _ ih =>
    rw [pieceChars_cons, List.append_assoc, ih, Piece.chars, String.toList_ofList]
    exact append_of_front hfront

end Runs

/-! ## Whole texts -/

/-- A token never passes for the end of the file. -/
theorem kind_ne_of_word {c : Char} {cs more rest : List Char} {kind : Kind}
    (h : word c cs = some (kind, more, rest)) : kind ≠ .endOfFile := by
  unfold word at h
  split at h
  · next hpunctuation =>
    cases h
    unfold punctuation? at hpunctuation
    split at hpunctuation <;> cases hpunctuation <;> decide
  · split at h
    · cases h
      unfold wordKind
      repeat' split
      all_goals decide
    · repeat' split at h
      all_goals (cases h; try decide)

/-- The keyword `if` is spelled in one way. -/
theorem eq_if_of_word {c : Char} {cs more rest : List Char}
    (h : word c cs = some (.ifKeyword, more, rest)) : c :: more = ['i', 'f'] := by
  unfold word at h
  split at h
  · next hpunctuation =>
    cases h
    unfold punctuation? at hpunctuation
    split at hpunctuation <;> cases hpunctuation
  · split at h
    · obtain ⟨hkind, rfl, -⟩ : _ ∧ _ ∧ _ := by simpa using h
      unfold wordKind at hkind
      split at hkind
      · assumption
      · split at hkind <;> cases hkind
    · repeat' split at h
      all_goals cases h

/-- The lexemes of a text that stands at `offset`. -/
inductive Scanned : Nat → List Char → List Lexeme → Prop
  /-- Trivia, and nothing after it. -/
  | endOfFile {offset : Nat} {cs : List Char} {leading : List Piece}
      (hleading : Runs false cs leading []) :
      Scanned offset cs [⟨.endOfFile, "", offset + size leading, leading, []⟩]
  /-- A token with its trivia, and the lexemes after it. -/
  | token {offset : Nat} {cs after more behind rest : List Char} {c : Char} {kind : Kind}
      {leading trailing : List Piece} {later : List Lexeme}
      (hleading : Runs false cs leading (c :: after))
      (hword : word c after = some (kind, more, behind))
      (htrailing : Runs true behind trailing rest)
      (hlater : Scanned
        (offset + size leading + Text.bytes (c :: more) + size trailing) rest later) :
      Scanned offset cs
        (⟨kind, String.ofList (c :: more), offset + size leading, leading, trailing⟩ :: later)

theorem scanned_of_scan {offset : Nat} {cs : List Char} {lexemes : List Lexeme}
    (h : scan offset cs = .ok lexemes) : Scanned offset cs lexemes := by
  fun_induction scan offset cs generalizing lexemes with
  | case1 => cases h
  | case2 =>
    rename_i hlead _
    cases h
    exact .endOfFile (runs_of_run hlead)
  | case3 => cases h
  | case4 => cases h
  | case5 => cases h
  | case6 =>
    rename_i hlead _ _ _ hword text stop _ _ htrail _ hlater _ ih
    cases h
    have hscanned := ih hlater
    simp only [stop, text, Text.utf8ByteSize_ofList] at hscanned
    exact .token (runs_of_run hlead) hword (runs_of_run htrail) hscanned

/-- The characters of a lexeme with its trivia. -/
def chars (lexeme : Lexeme) : List Char :=
  pieceChars lexeme.leading ++ lexeme.text.toList ++ pieceChars lexeme.trailing

/-- The number of bytes of a lexeme with its trivia. -/
def width (lexeme : Lexeme) : Nat :=
  size lexeme.leading + lexeme.text.utf8ByteSize + size lexeme.trailing

theorem bytes_chars (lexeme : Lexeme) : Text.bytes lexeme.chars = lexeme.width := by
  rw [chars, Text.bytes_append, Text.bytes_append, bytes_pieceChars, bytes_pieceChars, width,
    Text.utf8ByteSize_eq_bytes]

/-- Some lexemes stand end to end from `offset` on, each at the offset it names. -/
def Placed : Nat → List Lexeme → Prop
  | _, [] => True
  | offset, lexeme :: rest =>
    lexeme.offset = offset + size lexeme.leading ∧ Placed (offset + lexeme.width) rest

/-- The number of bytes of some lexemes. -/
def widths : List Lexeme → Nat
  | [] => 0
  | lexeme :: rest => lexeme.width + widths rest

theorem widths_append (lexemes more : List Lexeme) :
    widths (lexemes ++ more) = widths lexemes + widths more := by
  induction lexemes with
  | nil => simp [widths]
  | cons lexeme rest ih => simp [widths, ih, Nat.add_assoc]

theorem bytes_flatMap_chars (lexemes : List Lexeme) :
    Text.bytes (lexemes.flatMap chars) = widths lexemes := by
  induction lexemes with
  | nil => rfl
  | cons lexeme rest ih =>
    rw [List.flatMap_cons, Text.bytes_append, ih, bytes_chars]
    rfl

theorem placed_append {offset : Nat} {lexemes more : List Lexeme} :
    Placed offset (lexemes ++ more) ↔
      Placed offset lexemes ∧ Placed (offset + widths lexemes) more := by
  induction lexemes generalizing offset with
  | nil => simp [Placed, widths]
  | cons lexeme rest ih =>
    simp only [List.cons_append, Placed, ih, and_assoc, widths, Nat.add_assoc]

/-- Lexemes that stand end to end stand one behind the other. -/
theorem Placed.pairwise {offset : Nat} {lexemes : List Lexeme} (h : Placed offset lexemes) :
    lexemes.Pairwise (fun a b => a.offset + a.text.utf8ByteSize ≤ b.offset) ∧
      ∀ lexeme ∈ lexemes, offset ≤ lexeme.offset := by
  induction lexemes generalizing offset with
  | nil => exact ⟨.nil, nofun⟩
  | cons lexeme rest ih =>
    obtain ⟨hoffset, hrest⟩ := h
    obtain ⟨hpairwise, hbehind⟩ := ih hrest
    refine ⟨List.pairwise_cons.mpr ⟨?_, hpairwise⟩, ?_⟩
    · intro other hother
      have hle := hbehind other hother
      rw [width] at hle
      omega
    · intro other hother
      rcases List.mem_cons.mp hother with rfl | hother
      · omega
      · exact Nat.le_trans (Nat.le_add_right ..) (hbehind other hother)

namespace Scanned

variable {offset : Nat} {cs : List Char} {lexemes : List Lexeme}

/-- The lexemes that are described are those that are read. -/
theorem scan_eq (h : Scanned offset cs lexemes) : scan offset cs = .ok lexemes := by
  induction h with
  | @endOfFile offset cs leading hleading =>
    have hrun := hleading.run_eq offset
    rw [scan]
    split
    · next error herror => cases hrun.symm.trans herror
    · next pieces body hbody =>
      obtain ⟨rfl, rfl⟩ : leading = pieces ∧ [] = body := by simpa using hrun.symm.trans hbody
      rfl
  | @token offset cs after more behind rest c kind leading trailing later hleading hword htrailing
      _ ih =>
    have hlead := hleading.run_eq offset
    have htrail := htrailing.run_eq
    rw [scan]
    split
    · next error herror => cases hlead.symm.trans herror
    · next pieces body hbody =>
      obtain ⟨rfl, rfl⟩ : leading = pieces ∧ c :: after = body := by
        simpa using hlead.symm.trans hbody
      simp only
      split
      · next hnone => cases hword.symm.trans hnone
      · next kind' more' behind' hsome =>
        obtain ⟨rfl, rfl, rfl⟩ : kind = kind' ∧ more = more' ∧ behind = behind' := by
          simpa using hword.symm.trans hsome
        split
        · next error herror => cases (htrail _).symm.trans herror
        · next pieces' rest' hrest =>
          obtain ⟨rfl, rfl⟩ : trailing = pieces' ∧ rest = rest' := by
            simpa using (htrail _).symm.trans hrest
          rw [Text.utf8ByteSize_ofList, ih]

/-- **Lexing is lossless**: the lexemes of a text spell it out. -/
theorem chars_eq (h : Scanned offset cs lexemes) : lexemes.flatMap chars = cs := by
  induction h with
  | endOfFile hleading =>
    simpa [chars] using hleading.chars_eq
  | token hleading hword htrailing _ ih =>
    rw [List.flatMap_cons, ih, chars, String.toList_ofList, ← hleading.chars_eq,
      ← append_of_word hword, ← htrailing.chars_eq]
    simp

/-- Every lexeme stands at the offset it names. -/
theorem placed (h : Scanned offset cs lexemes) : Placed offset lexemes := by
  induction h with
  | endOfFile => exact ⟨rfl, trivial⟩
  | token _ _ _ _ ih =>
    refine ⟨rfl, ?_⟩
    rw [width, Text.utf8ByteSize_ofList, ← Nat.add_assoc, ← Nat.add_assoc]
    exact ih

/-- No lexeme is read twice. -/
theorem nodup (h : Scanned offset cs lexemes) : lexemes.Nodup := by
  induction h with
  | endOfFile => simp
  | @token offset cs after more behind rest c kind leading trailing later _ _ _ hlater ih =>
    refine List.nodup_cons.mpr ⟨fun hmem => ?_, ih⟩
    have hle := hlater.placed.pairwise.2 _ hmem
    have hpos := Char.utf8Size_pos c
    rw [Text.bytes_cons] at hle
    simp only at hle
    omega

theorem text_eq_if (h : Scanned offset cs lexemes) {lexeme : Lexeme} (hmem : lexeme ∈ lexemes)
    (hkind : lexeme.kind = .ifKeyword) : lexeme.text = "if" := by
  induction h with
  | endOfFile =>
    obtain rfl := List.mem_singleton.mp hmem
    cases hkind
  | token _ hword _ _ ih =>
    rcases List.mem_cons.mp hmem with rfl | hmem
    · obtain rfl : _ = Kind.ifKeyword := hkind
      rw [eq_if_of_word hword]
    · exact ih hmem

/-- The end of the file is the last lexeme, and no other. -/
theorem endOfFile_last (h : Scanned offset cs lexemes) :
    ∃ init last, lexemes = init ++ [last] ∧ last.kind = .endOfFile ∧
      ∀ lexeme ∈ init, lexeme.kind ≠ .endOfFile := by
  induction h with
  | endOfFile => exact ⟨[], _, rfl, rfl, nofun⟩
  | token _ hword _ _ ih =>
    obtain ⟨init, last, rfl, hlast, hinit⟩ := ih
    refine ⟨_ :: init, last, rfl, hlast, ?_⟩
    intro lexeme hlexeme
    rcases List.mem_cons.mp hlexeme with rfl | hlexeme
    · exact kind_ne_of_word hword
    · exact hinit lexeme hlexeme

end Scanned
end Lexeme
end SpacingLint
