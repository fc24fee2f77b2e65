import SpacingLint.Proofs.Tree.Ends

/-! # The protocol of building

A builder decides by what it holds: a list of open nodes, a root or none, the waiting trivia
and a flag.  Its caller sees only the calls and their replies.  This history is enough to know
every reply in advance (`Builder.History.verdict`), and what building ends with
(`Builder.History.ending`): a builder answers as a protocol of balanced calls would, also
after calls that were refused.

The history says at all times where the builder stands (`Builder.History.Describes`).  In
particular the flag is up only while the newest child of the innermost open node is a token, so
trivia behind a token always finds it.
-/
namespace SpacingLint
namespace Builder

/-- What happened to a builder: its calls and the replies to them, the newest first. -/
abbrev History := List (Call × Option BuildError)

/-- The history of a new builder to which some calls are made. -/
def historyOf (calls : List Call) : History := (calls.zip (empty.replies calls).1).reverse

namespace History

/-- A node was opened. -/
def opens : Call × Option BuildError → Bool
  | (.start _, _) => true
  | _ => false

/-- The innermost open node was taken away, be it as a root that was refused. -/
def pops : Call × Option BuildError → Bool
  | (.finish, reply) => reply ≠ some .unmatchedFinish
  | _ => false

/-- How many nodes were opened and not taken away. -/
def depth (history : History) : Nat := history.countP opens - history.countP pops

/-- Whether a node was closed without complaint while it was the only open one. -/
def rooted : History → Bool
  | [] => false
  | (.finish, none) :: earlier => depth earlier = 1 || rooted earlier
  | _ :: earlier => rooted earlier

/-- How much trivia was queued since a token was written last. -/
def waiting : History → Nat
  | [] => 0
  | (.token _ _, none) :: _ => 0
  | (.lead _ _, _) :: earlier => waiting earlier + 1
  | _ :: earlier => waiting earlier

/-- Whether the last call wrote a token or trivia behind one. -/
def afterToken : History → Bool
  | (.token _ _, none) :: _ | (.trail _ _, none) :: _ => true
  | _ => false

/-- The reply to a call. -/
def verdict (history : History) : Call → Option BuildError
  | .start _ | .lead _ _ => none
  | .finish =>
    if history.depth = 0 then some .unmatchedFinish
    else if history.depth = 1 ∧ history.rooted then some .multipleRoots
    else none
  | .token _ _ => if history.depth = 0 then some .tokenWithoutParent else none
  | .trail _ _ => if history.afterToken then none else some .trailingWithoutToken

/-- Why there is no tree if building ends now; `none` if there is one. -/
def ending (history : History) : Option BuildError :=
  if 0 < history.depth then some (.unfinishedNodes history.depth)
  else if 0 < history.waiting then some (.danglingTrivia history.waiting)
  else if history.rooted then none
  else some .missingRoot

/-! ## Where the builder stands -/

/-- **A history describes a builder.** -/
structure Describes (history : History) (b : Builder) : Prop where
  /-- The open nodes are those that were opened and not taken away. -/
  depth_eq : b.frames.length + history.countP pops = history.countP opens
  /-- There is a root once one was closed. -/
  rooted_eq : b.root.isSome = history.rooted
  /-- The trivia that waits is what was queued since the last token. -/
  waiting_eq : b.pending.length = history.waiting
  /-- The flag is up after a token, and after trivia behind one. -/
  afterToken_eq : b.afterToken = history.afterToken
  /-- The flag is up only if there is a token that trivia can be added to. -/
  newest_eq : b.afterToken = true → ∃ frame outer last older,
    b.frames = frame :: outer ∧ frame.newest = .token last :: older

theorem describes_empty : Describes [] empty :=
  ⟨rfl, rfl, rfl, rfl, nofun⟩

variable {history : History} {b : Builder}

namespace Describes

theorem length_frames (h : history.Describes b) : b.frames.length = history.depth := by
  have hdepth := h.depth_eq
  rw [depth]
  omega

/-- Right after a token trivia is never refused. -/
theorem reply_trail (h : history.Describes b) (hafter : b.afterToken = true) (kind : TriviaKind)
    (text : String) : b.reply (.trail kind text) = none := by
  obtain ⟨⟨nodeKind, offset, newest, extent⟩, outer, last, older, hframes, hnewest⟩ :=
    h.newest_eq hafter
  obtain rfl : newest = .token last :: older := hnewest
  simp [reply, call, trailingTrivia, hafter, hframes]

/-- **The history knows the reply.** -/
theorem reply_eq (h : history.Describes b) (c : Call) : b.reply c = history.verdict c := by
  have hlength := h.length_frames
  cases c with
  | start kind => rfl
  | lead kind text => rfl
  | finish =>
    rw [verdict, ← hlength, ← h.rooted_eq]
    rcases hframes : b.frames with _ | ⟨frame, _ | ⟨parent, outer⟩⟩
    · simp [reply, call, finishNode, hframes]
    · cases hroot : b.root <;> simp [reply, call, finishNode, hframes, hroot]
    · simp [reply, call, finishNode, hframes]
  | token kind text =>
    rw [verdict, ← hlength]
    cases hframes : b.frames <;> simp [reply, call, Builder.token, hframes]
  | trail kind text =>
    rw [verdict, ← h.afterToken_eq]
    cases hafter : b.afterToken with
    | true => exact h.reply_trail hafter kind text
    | false => simp [reply, call, trailingTrivia, hafter]

/-- **Every call keeps a history descriptive.** -/
theorem step (h : history.Describes b) (c : Call) :
    Describes ((c, b.reply c) :: history) (b.next c) := by
  have hdepth := h.depth_eq
  rcases b.next_cases c with ⟨hreply, haccepted⟩ | ⟨error, hreply, hrefused⟩
  · rw [hreply]
    generalize b.next c = after at haccepted ⊢
    cases haccepted with
    | start kind =>
      refine ⟨?_, h.rooted_eq, h.waiting_eq, rfl, nofun⟩
      simp [List.countP_cons, opens, pops]
      omega
    | adopt hframes =>
      refine ⟨?_, ?_, h.waiting_eq, rfl, nofun⟩
      · simp [hframes, opens, pops] at hdepth ⊢
        omega
      · have hdeep : history.depth ≠ 1 := by
          rw [← h.length_frames, hframes]
          simp
        simp [rooted, hdeep, h.rooted_eq]
    | root hframes hroot =>
      refine ⟨?_, ?_, h.waiting_eq, rfl, nofun⟩
      · simp [hframes, opens, pops] at hdepth ⊢
        omega
      · have hone : history.depth = 1 := by
          rw [← h.length_frames, hframes]
          rfl
        simp [rooted, hone]
    | lead kind text =>
      refine ⟨by simpa [opens, pops] using hdepth, h.rooted_eq, ?_, rfl, nofun⟩
      simp [waiting, h.waiting_eq]
    | token kind text hframes =>
      refine ⟨?_, h.rooted_eq, rfl, rfl, fun _ => ⟨_, _, _, _, rfl, rfl⟩⟩
      simpa [hframes, opens, pops] using hdepth
    | trail kind text hafter hframes hnewest =>
      refine ⟨?_, h.rooted_eq, h.waiting_eq, hafter, fun _ => ⟨_, _, _, _, rfl, rfl⟩⟩
      simpa [hframes, opens, pops] using hdepth
  · rw [hreply]
    generalize b.next c = after at hrefused ⊢
    cases hrefused with
    | unmatched hframes =>
      refine ⟨?_, h.rooted_eq, h.waiting_eq, rfl, nofun⟩
      simpa [opens, pops] using hdepth
    | second hframes hroot =>
      refine ⟨?_, h.rooted_eq, h.waiting_eq, rfl, nofun⟩
      simp [hframes, opens, pops] at hdepth ⊢
      omega
    | orphan kind text hframes =>
      refine ⟨by simpa [opens, pops] using hdepth, h.rooted_eq, h.waiting_eq, ?_, h.newest_eq⟩
      -- Nothing was written into a node, for there is none.
      cases hafter : b.afterToken with
      | false => rfl
      | true =>
        obtain ⟨_, _, _, _, hnonempty, -⟩ := h.newest_eq hafter
        cases hframes.symm.trans hnonempty
    | untrailed kind text =>
      refine ⟨by simpa [opens, pops] using hdepth, h.rooted_eq, h.waiting_eq, ?_, h.newest_eq⟩
      cases hafter : b.afterToken with
      | false => rfl
      | true => cases (h.reply_trail hafter kind text).symm.trans hreply

/-- **Only a second root leaves traces**: any other refusal leaves the builder as it is. -/
theorem next_eq_self (h : history.Describes b) {c : Call} {error : BuildError}
    (hreply : b.reply c = some error) (hother : error ≠ .multipleRoots) : b.next c = b := by
  rcases b.next_cases c with ⟨haccepted, -⟩ | ⟨reason, hreason, hrefused⟩
  · cases haccepted.symm.trans hreply
  · obtain rfl := Option.some.inj (hreason.symm.trans hreply)
    generalize b.next c = after at hrefused ⊢
    cases hrefused with
    | unmatched hframes =>
      -- The flag is taken down, but it cannot be up while no node is open.
      cases hafter : b.afterToken with
      | false => rw [← hafter]
      | true =>
        obtain ⟨_, _, _, _, hnonempty, -⟩ := h.newest_eq hafter
        cases hframes.symm.trans hnonempty
    | second => exact absurd rfl hother
    | orphan | untrailed => rfl

/-- **The history knows how building ends.** -/
theorem finish_eq (h : history.Describes b) :
    (∃ tree, b.finish = .ok tree ∧ history.ending = none) ∨
      ∃ error, b.finish = .error error ∧ history.ending = some error := by
  have hlength := h.length_frames
  rw [ending, ← hlength, ← h.waiting_eq, ← h.rooted_eq, finish]
  cases hframes : b.frames <;> cases hpending : b.pending <;> cases hroot : b.root <;> simp

/-- Any calls keep a history descriptive. -/
theorem replies (h : history.Describes b) (calls : List Call) :
    Describes ((calls.zip (b.replies calls).1).reverse ++ history) (b.replies calls).2 := by
  induction calls generalizing history b with
  | nil => exact h
  | cons c rest ih =>
    rw [replies_cons, List.zip_cons_cons, List.reverse_cons, List.append_assoc]
    exact ih (h.step c)

/-- **No call asks for an inverted span**: an account goes through any calls. -/
theorem reckonAll_eq (h : history.Describes b) {earlier : List Token} (hsound : b.Sound earlier)
    (calls : List Call) : b.reckonAll b.account calls = some (b.replies calls).2.account := by
  induction calls generalizing history b earlier with
  | nil => rfl
  | cons c rest ih =>
    rw [reckonAll, hsound.reckon_eq c h.reply_trail, replies_cons]
    exact ih (h.step c) (hsound.next c)

end Describes

/-- A history describes the builder it is about. -/
theorem describes (calls : List Call) : (historyOf calls).Describes (empty.replies calls).2 := by
  have h := describes_empty.replies calls
  rwa [List.append_nil] at h

end History

/-- There is a reply for each call. -/
theorem length_replies (b : Builder) (calls : List Call) :
    (b.replies calls).1.length = calls.length := by
  induction calls generalizing b with
  | nil => rfl
  | cons c rest ih => rw [replies_cons, List.length_cons, ih, List.length_cons]

/-- One more call. -/
theorem replies_concat (b : Builder) (calls : List Call) (c : Call) :
    b.replies (calls ++ [c]) =
      ((b.replies calls).1 ++ [(b.replies calls).2.reply c], (b.replies calls).2.next c) := by
  induction calls generalizing b with
  | nil => rw [List.nil_append, replies_cons]; rfl
  | cons first rest ih => rw [List.cons_append, replies_cons, replies_cons, ih]; rfl

/-- **The protocol of building.**  After any calls, refused ones among them, the history
determines the reply to the next call and what building ends with.  A call that is refused
leaves the builder as it is, unless it is that a second root is closed.  While the flag is up
there is a token to which trivia can be added, and no call asks for a span whose ends are out
of order. -/
theorem replies_protocol (past : List Call) :
    (empty.replies past).1.length = past.length ∧
      (historyOf past).countP History.pops ≤ (historyOf past).countP History.opens ∧
      (∀ c, (empty.replies (past ++ [c])).1 =
        (empty.replies past).1 ++ [(historyOf past).verdict c]) ∧
      (∀ c, (historyOf past).verdict c = none ∨ (historyOf past).verdict c = some .multipleRoots ∨
        (empty.replies (past ++ [c])).2 = (empty.replies past).2) ∧
      ((∃ tree, (empty.replies past).2.finish = .ok tree ∧ (historyOf past).ending = none) ∨
        ∃ error, (empty.replies past).2.finish = .error error ∧
          (historyOf past).ending = some error) ∧
      ((empty.replies past).2.afterToken = false ∨ ∃ frame outer last older,
        (empty.replies past).2.frames = frame :: outer ∧ frame.newest = .token last :: older) ∧
      (empty.reckonAll [] past).isSome = true := by
  have h := History.describes past
  refine ⟨length_replies empty past, ?_, ?_, ?_, h.finish_eq, ?_, ?_⟩
  · have hdepth := h.depth_eq
    omega
  · intro c
    rw [replies_concat, h.reply_eq]
  · intro c
    cases hverdict : (historyOf past).verdict c with
    | none => exact .inl rfl
    | some error =>
      by_cases hother : error = .multipleRoots
      · exact .inr (.inl (congrArg some hother))
      · refine .inr (.inr ?_)
        rw [replies_concat]
        exact h.next_eq_self ((h.reply_eq c).trans hverdict) hother
  · cases hafter : (empty.replies past).2.afterToken with
    | false => exact .inl rfl
    | true => exact .inr (h.newest_eq hafter)
  · have hreckon := History.describes_empty.reckonAll_eq sound_empty past
    rw [show account empty = [] from rfl] at hreckon
    rw [hreckon]
    rfl

end Builder
end SpacingLint
