import SpacingLint.Proofs.Source.Atoms

/-! # Lexing by offsets

A lexer that holds no text but an offset into it has to cut the text at every step: what is
left of it from the offset on, and from there as many bytes as were counted.  Such a cut fails
beyond the end of the text and inside a character.  Here the lexer is written down in this way,
with each cut as a step that can fail (`Offsets.tokenize`), and shown to be the one that passes
the rest of the text on (`Offsets.tokenize_toList`); so none of its cuts ever fails.

What is counted are the bytes of a text that stands at the front of what is left, so the two
lexers agree step by step as long as the offset is the number of bytes that were read.
-/
namespace SpacingLint
namespace Offsets

open Text (bytes bytes_cons)
open Lexeme

/-! ## Cuts -/

/-- Why a scan by offsets ends early. -/
inductive Fault where
  /-- The text is refused. -/
  | refused (error : SourceError)
  /-- The text is cut beyond its end or inside a character. -/
  | offBoundary

/-- What is left of a text from an offset on. -/
def dropTo (n : Nat) (cs : List Char) : Except Fault (List Char) :=
  match Text.drop? n cs with
  | some rest => .ok rest
  | none => .error .offBoundary

/-- The first bytes of a text. -/
def takeTo (n : Nat) (cs : List Char) : Except Fault (List Char) :=
  match Text.take? n cs with
  | some taken => .ok taken
  | none => .error .offBoundary

theorem takeTo_bytes_append (cs ds : List Char) : takeTo (bytes cs) (cs ++ ds) = .ok cs := by
  rw [takeTo, Text.take?_bytes_append]

/-- A text has been read up to an offset, and some of it is left. -/
def At (source : List Char) (offset : Nat) (rest : List Char) : Prop :=
  ∃ done, source = done ++ rest ∧ bytes done = offset

namespace At

variable {source rest : List Char} {offset : Nat}

theorem start (source : List Char) : At source 0 source := ⟨[], rfl, rfl⟩

/-- Some more of the text is read. -/
theorem pass {text after : List Char} (h : At source offset (text ++ after)) :
    At source (offset + bytes text) after := by
  obtain ⟨done, rfl, rfl⟩ := h
  exact ⟨done ++ text, by rw [List.append_assoc], Text.bytes_append ..⟩

theorem bytes_eq (h : At source offset rest) : bytes source = offset + bytes rest := by
  obtain ⟨done, rfl, rfl⟩ := h
  exact Text.bytes_append ..

theorem dropTo_eq (h : At source offset rest) : dropTo offset source = .ok rest := by
  obtain ⟨done, rfl, rfl⟩ := h
  rw [dropTo, Text.drop?_bytes_append]

theorem of_dropTo (h : dropTo offset source = .ok rest) : At source offset rest := by
  unfold dropTo at h
  split at h
  · next hdrop => cases h; exact Text.exists_of_drop? hdrop
  · cases h

end At

/-! ## Searches -/

/-- The offset of the first character of a class. -/
def find (p : Char → Bool) : List Char → Option Nat
  | [] => none
  | c :: cs => if p c then some 0 else (find p cs).map (c.utf8Size + ·)

/-- How many bytes stand before the first character of a class: all of them if there is none. -/
def upTo (p : Char → Bool) (cs : List Char) : Nat := (find p cs).getD (bytes cs)

/-- The offset of the first closing delimiter of a comment. -/
def findClosing : List Char → Option Nat
  | [] => none
  | '*' :: '/' :: _ => some 0
  | c :: cs => (findClosing cs).map (c.utf8Size + ·)

theorem upTo_eq (p : Char → Bool) (cs : List Char) :
    upTo p cs = bytes (cs.takeWhile (!p ·)) := by
  induction cs with
  | nil => rfl
  | cons c cs ih =>
    unfold upTo at ih ⊢
    rw [find, List.takeWhile_cons]
    cases hc : p c with
    | true => rfl
    | false =>
      cases hfind : find p cs with
      | none => simp [← ih, hfind]
      | some n => simp [← ih, hfind]

/-- The closing delimiter is found where the comment is cut. -/
theorem bytes_cutComment (cs : List Char) :
    (cutComment cs).map (fun cut => bytes cut.1) = (findClosing cs).map (· + 2) := by
  fun_induction cutComment cs with
  | case1 => rfl
  | case2 rest => rfl
  | case3 c rest hnot ih =>
    rw [findClosing]
    · have hsum := congrArg (Option.map (c.utf8Size + ·)) ih
      simpa [Function.comp_def, Nat.add_assoc] using hsum
    · exact hnot

/-! ## Scanning -/

/-- The kind of the trivia at the front of a text, and how many bytes it has. -/
def measure (offset : Nat) (rest : List Char) : Except Fault (Option (TriviaKind × Nat)) :=
  if ['\r', '\n'].isPrefixOf rest then .ok (some (.endOfLine, 2))
  else if ['\n'].isPrefixOf rest then .ok (some (.endOfLine, 1))
  else if rest.head?.any isBlank then .ok (some (.whitespace, upTo (!isBlank ·) rest))
  else if ['/', '/'].isPrefixOf rest then .ok (some (.singleLineComment, upTo isLineEnd rest))
  else if ['/', '*'].isPrefixOf rest then
    match dropTo 2 rest with
    | .error fault => .error fault
    | .ok inner =>
      match findClosing inner with
      | none => .error (.refused (.unterminatedComment offset))
      | some stop => .ok (some (.multiLineComment, stop + 4))
  else .ok none

/-- The measure of what stands at the front of a text. -/
def measureOf (offset : Nat) : Front → Except Fault (Option (TriviaKind × Nat))
  | .other => .ok none
  | .unterminated => .error (.refused (.unterminatedComment offset))
  | .trivia kind text _ => .ok (some (kind, bytes text))

theorem measure_comment (offset : Nat) (rest : List Char) :
    measure offset ('/' :: '*' :: rest) =
      match findClosing rest with
      | none => .error (.refused (.unterminatedComment offset))
      | some stop => .ok (some (.multiLineComment, stop + 4)) := by
  have hdrop : dropTo 2 ('/' :: '*' :: rest) = .ok rest := At.dropTo_eq ⟨['/', '*'], rfl, rfl⟩
  simp [measure, hdrop, isBlank]

theorem isPrefixOf_eq_false {text cs : List Char} (h : ∀ more, cs ≠ text ++ more) :
    text.isPrefixOf cs = false := by
  rw [Bool.eq_false_iff, ne_eq, List.isPrefixOf_iff_prefix]
  rintro ⟨more, heq⟩
  exact h more heq.symm

/-- What is measured is what stands at the front. -/
theorem measure_eq (offset : Nat) (cs : List Char) :
    measure offset cs = measureOf offset (front cs) := by
  fun_cases front cs with
  | case1 rest => rfl
  | case2 rest => rfl
  | case3 rest =>
    show Except.ok (some (TriviaKind.singleLineComment, upTo isLineEnd ('/' :: '/' :: rest))) = _
    rw [upTo_eq]
    rfl
  | case4 rest body after hcut =>
    obtain ⟨stop, hstop, hbytes⟩ := Option.map_eq_some_iff.mp
      ((bytes_cutComment rest).symm.trans (by rw [hcut]; rfl))
    have hopening : bytes ('/' :: '*' :: body) = bytes body + 2 := by
      rw [bytes_cons, bytes_cons, ← Nat.add_assoc, Nat.add_comm]
      rfl
    rw [measure_comment, hstop, measureOf, hopening, show bytes body = stop + 2 from hbytes.symm]
  | case5 rest hcut =>
    have hnone : findClosing rest = none := by
      have hmap := bytes_cutComment rest
      rw [hcut] at hmap
      exact Option.map_eq_none_iff.mp hmap.symm
    rw [measure_comment, hnone]
    rfl
  | case6 c rest _ _ _ _ hblank =>
    have hc : c = ' ' ∨ c = '\t' := by simpa [isBlank] using hblank
    have hmeasure : measure offset (c :: rest) =
        .ok (some (.whitespace, upTo (!isBlank ·) (c :: rest))) := by
      rcases hc with rfl | rfl <;> rfl
    rw [hmeasure, upTo_eq, List.takeWhile_cons_of_pos (by simpa using hblank)]
    simp [measureOf]
  | case7 c rest hcrlf hlf hline hblock hblank =>
    have hprefix : ∀ d e : Char, (∀ more, c = d → rest = e :: more → False) →
        [d, e].isPrefixOf (c :: rest) = false := fun d e h =>
      isPrefixOf_eq_false fun more heq => h more (List.cons.inj heq).1 (List.cons.inj heq).2
    have hfeed : ['\n'].isPrefixOf (c :: rest) = false :=
      isPrefixOf_eq_false fun more heq => hlf (List.cons.inj heq).1
    simp [measure, hprefix _ _ hcrlf, hfeed, hprefix _ _ hline, hprefix _ _ hblock, hblank,
      measureOf]
  | case8 => rfl

/-- Trivia that is measured is not empty, so something of the text is left. -/
theorem pos_of_measure {offset len : Nat} {rest : List Char} {kind : TriviaKind}
    (h : measure offset rest = .ok (some (kind, len))) : 0 < len ∧ 0 < bytes rest := by
  rw [measure_eq] at h
  cases hfront : front rest with
  | other => rw [hfront] at h; cases h
  | unterminated => rw [hfront] at h; cases h
  | trivia kind text after =>
    rw [hfront] at h
    cases h
    have hpos := Text.bytes_pos (ne_nil_of_front hfront)
    rw [← append_of_front hfront, Text.bytes_append]
    exact ⟨hpos, Nat.lt_of_lt_of_le hpos (Nat.le_add_right ..)⟩

/-- The trivia that stands at an offset, and the offset behind it. -/
def trivia (source : List Char) (ofLine : Bool) (offset : Nat) :
    Except Fault (List Piece × Nat) :=
  match _rest : dropTo offset source with
  | .error fault => .error fault
  | .ok rest =>
    match _measure : measure offset rest with
    | .error fault => .error fault
    | .ok none => .ok ([], offset)
    | .ok (some (kind, len)) =>
      match takeTo len rest with
      | .error fault => .error fault
      | .ok text =>
        let piece : Piece := ⟨kind, String.ofList text⟩
        if ofLine && kind = .endOfLine then .ok ([piece], offset + len)
        else
          match trivia source ofLine (offset + len) with
          | .ok (pieces, stop) => .ok (piece :: pieces, stop)
          | .error fault => .error fault
termination_by bytes source - offset
decreasing_by
  have hbytes := (At.of_dropTo _rest).bytes_eq
  obtain ⟨hlen, hrest⟩ := pos_of_measure _measure
  omega

/-- Whether an operator of two characters stands at the front of a text. -/
def startsWithPair : List Char → Bool
  | c :: d :: _ => isOperatorPair c d
  | _ => false

/-- The token that stands at an offset. -/
def token (source : List Char) (offset : Nat) : Except Fault (Kind × List Char) :=
  match dropTo offset source with
  | .error fault => .error fault
  | .ok [] => .ok (.endOfFile, [])
  | .ok (c :: rest) =>
    match punctuation? c with
    | some kind => (takeTo 1 (c :: rest)).map fun text => (kind, text)
    | none =>
      if isWordStart c then
        (takeTo (upTo (!isWordPart ·) (c :: rest)) (c :: rest)).map fun text =>
          (wordKind text, text)
      else if c.isDigit then
        (takeTo (upTo (!Char.isDigit ·) (c :: rest)) (c :: rest)).map fun text =>
          (.numberLiteral, text)
      else if isOperator c then
        (takeTo (if startsWithPair (c :: rest) then 2 else 1) (c :: rest)).map fun text =>
          (.operator, text)
      else .error (.refused (.unexpectedCharacter offset c))

/-- What the token at the front of a text is. -/
def tokenOf (offset : Nat) : List Char → Except Fault (Kind × List Char)
  | [] => .ok (.endOfFile, [])
  | c :: rest =>
    match word c rest with
    | none => .error (.refused (.unexpectedCharacter offset c))
    | some (kind, more, _) => .ok (kind, c :: more)

/-- A run of a class is taken whole. -/
theorem takeTo_upTo {p : Char → Bool} {c : Char} (h : p c = true) (rest : List Char) :
    takeTo (upTo (!p ·) (c :: rest)) (c :: rest) = .ok (c :: rest.takeWhile p) := by
  have htake : (c :: rest).takeWhile (!!p ·) = c :: rest.takeWhile p := by simp [h]
  rw [upTo_eq, htake]
  have hsplit : c :: rest = c :: rest.takeWhile p ++ rest.dropWhile p := by simp
  conv => lhs; arg 2; rw [hsplit]
  exact takeTo_bytes_append ..

theorem utf8Size_of_operator {c : Char} (h : c ∈ operators) : c.utf8Size = 1 := by
  have hall : operators.all (·.utf8Size == 1) = true := rfl
  exact eq_of_beq (List.all_eq_true.mp hall c h)

theorem utf8Size_of_punctuation {c : Char} {kind : Kind} (h : punctuation? c = some kind) :
    c.utf8Size = 1 := by
  unfold punctuation? at h
  split at h <;> first | rfl | cases h

theorem takeTo_one {c : Char} (h : c.utf8Size = 1) (rest : List Char) :
    takeTo 1 (c :: rest) = .ok [c] := by
  have htake := takeTo_bytes_append [c] rest
  rwa [bytes_cons, h] at htake

/-- The halves of an operator have one byte each. -/
theorem takeTo_two {c d : Char} (hoperator : c ∈ operators)
    (hpair : (c, d) ∈ operatorPairs) (rest : List Char) :
    takeTo 2 (c :: d :: rest) = .ok [c, d] := by
  have htake := takeTo_bytes_append [c, d] rest
  rwa [bytes_cons, bytes_cons, utf8Size_of_operator hoperator,
    utf8Size_of_operator (mem_operators_of_pair hpair)] at htake

/-- The token that is found by its offset is the one at the front of what is left. -/
theorem At.token_eq {source rest : List Char} {offset : Nat} (h : At source offset rest) :
    token source offset = tokenOf offset rest := by
  rw [token, h.dropTo_eq]
  cases rest with
  | nil => rfl
  | cons c rest =>
    simp only [tokenOf, word]
    cases hpunctuation : punctuation? c with
    | some kind =>
      rw [takeTo_one (utf8Size_of_punctuation hpunctuation)]
      rfl
    | none =>
      dsimp only
      split
      · next hstart =>
        have hpart : isWordPart c = true := by
          rw [isWordPart_eq]
          exact RunClass.goesOn_of_begins (isWordStart_eq ▸ hstart)
        rw [takeTo_upTo hpart]
        rfl
      · split
        · next hdigit =>
          rw [takeTo_upTo hdigit]
          rfl
        · split
          · next hoperator =>
            have hoperator := isOperator_iff.mp hoperator
            have hone := takeTo_one (utf8Size_of_operator hoperator) rest
            cases rest with
            | nil =>
              rw [show startsWithPair [c] = false from rfl, if_neg Bool.false_ne_true, hone]
              rfl
            | cons d rest =>
              rw [startsWithPair]
              dsimp only
              split
              · next hpair =>
                rw [takeTo_two hoperator (isOperatorPair_iff.mp hpair)]
                rfl
              · rw [hone]
                rfl
          · rfl

/-- A token that stands at an offset ends within the text, and only that of the end is empty. -/
theorem bounds_of_token {source text : List Char} {offset : Nat} {kind : Kind}
    (h : token source offset = .ok (kind, text)) :
    offset + bytes text ≤ bytes source ∧ (kind ≠ .endOfFile → 0 < bytes text) := by
  obtain ⟨rest, hrest⟩ : ∃ rest, dropTo offset source = .ok rest := by
    unfold token at h
    cases hdrop : dropTo offset source with
    | error fault => rw [hdrop] at h; cases h
    | ok rest => exact ⟨rest, rfl⟩
  have hat := At.of_dropTo hrest
  rw [hat.token_eq] at h
  rw [hat.bytes_eq]
  cases rest with
  | nil => cases h; exact ⟨Nat.le_refl _, fun hkind => absurd rfl hkind⟩
  | cons c rest =>
    cases hword : word c rest with
    | none => rw [tokenOf, hword] at h; cases h
    | some found =>
      obtain ⟨found, more, behind⟩ := found
      rw [tokenOf, hword] at h
      cases h
      refine ⟨?_, fun _ => Text.bytes_pos (List.cons_ne_nil _ _)⟩
      rw [← append_of_word hword, ← List.cons_append, Text.bytes_append]
      omega

/-- The trivia that stands at an offset ends no earlier. -/
theorem le_of_trivia {source : List Char} {ofLine : Bool} {offset stop : Nat}
    {pieces : List Piece} (h : trivia source ofLine offset = .ok (pieces, stop)) :
    offset ≤ stop := by
  fun_induction trivia source ofLine offset generalizing pieces with
  | case1 => cases h
  | case2 => cases h
  | case3 => cases h; exact Nat.le_refl _
  | case4 => cases h
  | case5 => cases h; exact Nat.le_add_right ..
  | case6 =>
    rename_i hlater ih
    cases h
    exact Nat.le_trans (Nat.le_add_right ..) (ih hlater)
  | case7 => cases h

/-- The lexeme that stands at an offset, and the offset behind its trivia. -/
def lexeme (source : List Char) (offset : Nat) : Except Fault (Lexeme × Nat) :=
  match trivia source false offset with
  | .error fault => .error fault
  | .ok (leading, start) =>
    match token source start with
    | .error fault => .error fault
    | .ok (kind, text) =>
      let stop := start + bytes text
      if kind = .endOfFile then .ok (⟨kind, String.ofList text, start, leading, []⟩, stop)
      else
        match trivia source true stop with
        | .error fault => .error fault
        | .ok (trailing, next) =>
          .ok (⟨kind, String.ofList text, start, leading, trailing⟩, next)

/-- Behind a lexeme that is not the last less of the text is left. -/
theorem bounds_of_lexeme {source : List Char} {offset next : Nat} {found : Lexeme}
    (h : lexeme source offset = .ok (found, next)) (hkind : found.kind ≠ .endOfFile) :
    offset < bytes source ∧ offset < next := by
  unfold lexeme at h
  split at h
  · cases h
  · next hlead =>
    split at h
    · cases h
    · next htoken =>
      dsimp only at h
      have hstart := le_of_trivia hlead
      obtain ⟨hstop, hpos⟩ := bounds_of_token htoken
      split at h
      · cases h
        exact absurd ‹_› hkind
      · split at h
        · cases h
        · next htrail =>
          cases h
          have hnext := le_of_trivia htrail
          have hpos := hpos hkind
          omega

/-- The lexemes of what is left of a text at an offset. -/
def tokenize (source : List Char) (offset : Nat) : Except Fault (List Lexeme) :=
  match _lexeme : lexeme source offset with
  | .error fault => .error fault
  | .ok (found, next) =>
    if _end : found.kind = .endOfFile then .ok [found]
    else
      match tokenize source next with
      | .error fault => .error fault
      | .ok later => .ok (found :: later)
termination_by bytes source - offset
decreasing_by
  obtain ⟨hoffset, hnext⟩ := bounds_of_lexeme _lexeme _end
  omega

theorem tokenize_of_error {source : List Char} {offset : Nat} {fault : Fault}
    (h : lexeme source offset = .error fault) : tokenize source offset = .error fault := by
  rw [tokenize]
  split
  · next hfault => cases hfault.symm.trans h; rfl
  · next hok => cases hok.symm.trans h

theorem tokenize_of_last {source : List Char} {offset next : Nat} {found : Lexeme}
    (h : lexeme source offset = .ok (found, next)) (hkind : found.kind = .endOfFile) :
    tokenize source offset = .ok [found] := by
  rw [tokenize]
  split
  · next hfault => cases hfault.symm.trans h
  · next hok =>
    cases hok.symm.trans h
    rw [dif_pos hkind]

theorem tokenize_of_more {source : List Char} {offset next : Nat} {found : Lexeme}
    (h : lexeme source offset = .ok (found, next)) (hkind : found.kind ≠ .endOfFile) :
    tokenize source offset = (tokenize source next).map (found :: ·) := by
  rw [tokenize]
  split
  · next hfault => cases hfault.symm.trans h
  · next hok =>
    cases hok.symm.trans h
    rw [dif_neg hkind]
    cases tokenize source next <;> rfl

/-! ## The two lexers agree -/

namespace At

variable {source rest : List Char} {offset : Nat}

/-- What trivia stands at an offset depends on what stands at the front of the rest. -/
theorem trivia_front (h : At source offset rest) (ofLine : Bool) :
    trivia source ofLine offset =
      match front rest with
      | .other => .ok ([], offset)
      | .unterminated => .error (.refused (.unterminatedComment offset))
      | .trivia kind text _ =>
        if ofLine && kind = .endOfLine then
          .ok ([⟨kind, String.ofList text⟩], offset + bytes text)
        else
          match trivia source ofLine (offset + bytes text) with
          | .ok (pieces, stop) => .ok (⟨kind, String.ofList text⟩ :: pieces, stop)
          | .error fault => .error fault := by
  have hmeasure := measure_eq offset rest
  rw [trivia]
  split
  · next hfault => cases h.dropTo_eq.symm.trans hfault
  · next hrest =>
    obtain rfl := Except.ok.inj (h.dropTo_eq.symm.trans hrest)
    cases hfront : front rest with
    | other =>
      rw [hfront] at hmeasure
      split
      · next hfault => cases hmeasure.symm.trans hfault
      · rfl
      · next hsome => cases hmeasure.symm.trans hsome
    | unterminated =>
      rw [hfront] at hmeasure
      split
      · next hfault => cases hmeasure.symm.trans hfault; rfl
      · next hnone => cases hmeasure.symm.trans hnone
      · next hsome => cases hmeasure.symm.trans hsome
    | trivia kind text after =>
      rw [hfront] at hmeasure
      split
      · next hfault => cases hmeasure.symm.trans hfault
      · next hnone => cases hmeasure.symm.trans hnone
      · next hsome =>
        cases hmeasure.symm.trans hsome
        have htake : takeTo (bytes text) rest = .ok text := by
          rw [← append_of_front hfront]
          exact takeTo_bytes_append ..
        rw [htake]

/-- The trivia that is found by its offset is the one at the front of what is left. -/
theorem trivia_eq (h : At source offset rest) (ofLine : Bool) :
    trivia source ofLine offset =
      match run ofLine offset rest with
      | .ok (pieces, _) => .ok (pieces, offset + size pieces)
      | .error error => .error (.refused error) := by
  fun_induction run ofLine offset rest with
  | case1 offset cs hfront =>
    rw [h.trivia_front, hfront]
    rfl
  | case2 offset cs hfront => rw [h.trivia_front, hfront]
  | case3 offset cs kind text rest hfront piece hline =>
    rw [h.trivia_front, hfront]
    dsimp only
    rw [if_pos hline]
    simp [size, piece]
  | case4 offset cs kind text rest hfront piece hline pieces after hrun ih =>
    rw [← append_of_front hfront] at h
    have hlater := ih h.pass
    rw [hrun] at hlater
    rw [append_of_front hfront] at h
    rw [h.trivia_front, hfront]
    dsimp only
    rw [if_neg hline, hlater]
    simp [size, piece, Nat.add_assoc]
  | case5 offset cs kind text rest hfront hline error hrun ih =>
    rw [← append_of_front hfront] at h
    have hlater := ih h.pass
    rw [hrun] at hlater
    rw [append_of_front hfront] at h
    rw [h.trivia_front, hfront]
    dsimp only
    rw [if_neg hline, hlater]

/-- Trivia that is read is passed over. -/
theorem run (h : At source offset rest) {ofLine : Bool} {pieces : List Piece} {after : List Char}
    (hrun : Lexeme.run ofLine offset rest = .ok (pieces, after)) :
    trivia source ofLine offset = .ok (pieces, offset + size pieces) ∧
      At source (offset + size pieces) after := by
  refine ⟨by rw [h.trivia_eq, hrun], ?_⟩
  rw [← (runs_of_run hrun).chars_eq] at h
  rw [← bytes_pieceChars]
  exact h.pass

/-- Once the trivia before a token and the token are read, the trivia behind it is left to do. -/
theorem lexeme_eq (h : At source offset rest) {leading : List Piece} {c : Char}
    {after more behind : List Char} {kind : Kind}
    (hrun : Lexeme.run false offset rest = .ok (leading, c :: after))
    (hword : word c after = some (kind, more, behind)) {stop : Nat}
    (hstop : stop = offset + size leading + bytes (c :: more)) :
    At source stop behind ∧
      lexeme source offset =
        match trivia source true stop with
        | .error fault => .error fault
        | .ok (trailing, next) =>
          .ok (⟨kind, String.ofList (c :: more), offset + size leading, leading, trailing⟩,
            next) := by
  obtain ⟨hlead, hstart⟩ := h.run hrun
  have htoken := hstart.token_eq
  rw [tokenOf, hword] at htoken
  rw [← append_of_word hword, ← List.cons_append] at hstart
  subst hstop
  refine ⟨hstart.pass, ?_⟩
  rw [lexeme, hlead]
  dsimp only
  rw [htoken]
  dsimp only
  rw [if_neg (kind_ne_of_word hword)]

/-- The lexemes that are found by their offsets are those of what is left. -/
theorem tokenize_eq (h : At source offset rest) :
    tokenize source offset = (scan offset rest).mapError .refused := by
  fun_induction scan offset rest with
  | case1 offset cs error hrun =>
    refine tokenize_of_error ?_
    rw [lexeme, h.trivia_eq, hrun]
  | case2 offset cs leading start hrun =>
    obtain ⟨hlead, hstart⟩ := h.run hrun
    have hlexeme : lexeme source offset =
        .ok (⟨.endOfFile, "", start, leading, []⟩, start) := by
      rw [lexeme, hlead]
      dsimp only
      rw [hstart.token_eq]
      rfl
    exact tokenize_of_last hlexeme rfl
  | case3 offset cs leading start c after hrun hword =>
    obtain ⟨hlead, hstart⟩ := h.run hrun
    refine tokenize_of_error ?_
    rw [lexeme, hlead]
    dsimp only
    rw [hstart.token_eq, tokenOf, hword]
  | case4 offset cs leading start c after hrun kind more behind hword text stop error htrail =>
    have hstop : stop = offset + size leading + bytes (c :: more) := by simp [stop, text, start]
    obtain ⟨hat, hlexeme⟩ := h.lexeme_eq hrun hword hstop
    rw [hat.trivia_eq, htrail] at hlexeme
    exact tokenize_of_error hlexeme
  | case5 offset cs leading start c after hrun kind more behind hword text stop trailing rest htrail
      error hlater _ ih =>
    have hstop : stop = offset + size leading + bytes (c :: more) := by simp [stop, text, start]
    obtain ⟨hat, hlexeme⟩ := h.lexeme_eq hrun hword hstop
    obtain ⟨htrivia, hrest⟩ := hat.run htrail
    rw [htrivia] at hlexeme
    rw [tokenize_of_more hlexeme (kind_ne_of_word hword), ih hrest, hlater]
    rfl
  | case6 offset cs leading start c after hrun kind more behind hword text stop trailing rest htrail
      lexemes hlater _ ih =>
    have hstop : stop = offset + size leading + bytes (c :: more) := by simp [stop, text, start]
    obtain ⟨hat, hlexeme⟩ := h.lexeme_eq hrun hword hstop
    obtain ⟨htrivia, hrest⟩ := hat.run htrail
    rw [htrivia] at hlexeme
    rw [tokenize_of_more hlexeme (kind_ne_of_word hword), ih hrest, hlater]
    rfl

end At

/-- **A lexer that works by offsets never cuts a text beyond its end or inside a character**:
it finds the same lexemes, and refuses a text for the same reasons. -/
theorem tokenize_toList (text : String) :
    tokenize text.toList 0 = (Lexeme.ofText text).mapError .refused :=
  (At.start _).tokenize_eq

end Offsets
end SpacingLint
