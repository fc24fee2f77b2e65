import SpacingLint.Lint.Table

/-! # Threads

A thread has a list of acts to do and does them in order, up to the first that
fails.  Several threads that share a session take turns in any order: a **schedule**
names, act by act, the thread whose turn it is.  A thread that is named when it has
nothing left to do does nothing, and what a schedule leaves undone is done after it,
one thread after the other, so every schedule runs every thread to its end.
-/
namespace SpacingLint

/-- Work that is done one act at a time. -/
structure Thread where
  /-- What is left to do. -/
  pending : List Act
  /-- Why the thread gave up, if it did. -/
  failure : Option ReportError

/-- Whose turn it is, act by act: places in a list of threads. -/
abbrev Schedule := List Nat

namespace Thread

/-- A thread before its first act. -/
def ofActs (acts : List Act) : Thread := ⟨acts, none⟩

/-- One act of a thread, if it has one left. -/
def step (tree : Tree) (thread : Thread) (session : Session) : Thread × Session :=
  match thread.pending with
  | [] => (thread, session)
  | act :: rest =>
    match act.perform tree session with
    | .ok _ after => (⟨rest, thread.failure⟩, after)
    | .error error after => (⟨[], some error⟩, after)

/-- All that a thread has left to do. -/
def drain (tree : Tree) (thread : Thread) (session : Session) : Thread × Session :=
  match Act.performAll tree thread.pending session with
  | .ok _ after => (⟨[], thread.failure⟩, after)
  | .error error after => (⟨[], some error⟩, after)

/-- One act of the thread at a place. -/
def stepAt (tree : Tree) : Nat → List Thread → Session → List Thread × Session
  | _, [], session => ([], session)
  | 0, thread :: rest, session =>
    let (thread, session) := thread.step tree session
    (thread :: rest, session)
  | place + 1, thread :: rest, session =>
    let (rest, session) := stepAt tree place rest session
    (thread :: rest, session)

/-- All that some threads have left to do, one thread after the other. -/
def drainAll (tree : Tree) : List Thread → Session → List Thread × Session
  | [], session => ([], session)
  | thread :: rest, session =>
    let (thread, session) := thread.drain tree session
    let (rest, session) := drainAll tree rest session
    (thread :: rest, session)

/-- Some threads run to their ends under a schedule. -/
def runAll (tree : Tree) : Schedule → List Thread → Session → List Thread × Session
  | [], threads, session => drainAll tree threads session
  | place :: later, threads, session =>
    let (threads, session) := stepAt tree place threads session
    runAll tree later threads session

/-- The failure of the first thread that failed. -/
def firstFailure (threads : List Thread) : Option ReportError :=
  threads.findSome? (·.failure)

end Thread
end SpacingLint
