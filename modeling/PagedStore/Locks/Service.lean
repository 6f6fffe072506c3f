import PagedStore.Locks.LockTable
import PagedStore.StoreError

/-!
# Serving lock commands

Clients send commands for their transactions: to acquire a lock, to release a
lock, or to release all locks.  Each command is carried out and then the table
is *settled*: woken requests are evaluated until none is left.  The parked
requests that are answered on the way are the *events* of the command.

A client whose request is parked is busy.  It cannot send another command
until the request is answered.
-/

namespace PagedStore

open Std (ExtTreeMap)

/-- A command of a transaction. -/
inductive LockCommand where
  /-- To hold a page in some mode. -/
  | acquire (transaction : TransactionId) (request : LockRequest)
  /-- To give one page back. -/
  | release (transaction : TransactionId) (page : PageId)
  /-- To give all pages back. -/
  | releaseAll (transaction : TransactionId)

/-- The answer to a command. -/
inductive LockReply where
  /-- The transaction has a parked request. -/
  | busy
  /-- The request was evaluated. -/
  | verdict (verdict : Verdict)
  /-- The page was given back, if the transaction held it. -/
  | released (held : Bool)
  /-- These pages were given back. -/
  | releasedAll (pages : List PageId)
deriving DecidableEq

/-- The transaction that a command is for. -/
def LockCommand.transaction : LockCommand → TransactionId
  | acquire t _ | release t _ | releaseAll t => t

/-- The error that a verdict means for its transaction, if it means one. -/
def Verdict.error? (t : TransactionId) : Verdict → Option StoreError
  | granted | waits => none
  | refused => some (.aborted t)

namespace LockTable

/-- Evaluates woken requests until none is left.  The answers are added to those
given. -/
def settleFrom (answers : ExtTreeMap TransactionId Verdict) (l : LockTable) :
    ExtTreeMap TransactionId Verdict × LockTable :=
  match _ : l.nextWoken? with
  | none => (answers, l)
  | some (t, r) =>
      settleFrom
        (match (l.consider t r).1 with
          | .waits => answers
          | verdict => answers.insert t verdict)
        (l.consider t r).2
termination_by l.evaluationsLeft
decreasing_by exact sizes_consider ‹_›

/-- Evaluates woken requests until none is left. -/
def settle (l : LockTable) : ExtTreeMap TransactionId Verdict × LockTable := settleFrom ∅ l

/-- Carries out a command, without settling. -/
def perform (l : LockTable) : LockCommand → LockReply × LockTable
  | .acquire t r => (l.consider t r).map .verdict fun l => l
  | .release t page => (l.release page t).map .released fun l => l
  | .releaseAll t => (l.releaseAll t).map .releasedAll fun l => l

/-- Serves a command: the reply, the events in ascending order, and the table
afterwards. -/
def serve (l : LockTable) (c : LockCommand) :
    LockReply × List (TransactionId × Verdict) × LockTable :=
  if l.isParked c.transaction then (.busy, [], l)
  else
    let done := l.perform c
    let settled := done.2.settle
    (done.1, settled.1.toList, settled.2)

end LockTable

end PagedStore
