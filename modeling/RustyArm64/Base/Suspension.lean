import Mathlib.Data.Nat.Notation

/-! Programs that ask a service and pause for an outside answer. A paused program
is not kept: it is executed again from its first line, the answers given so far
are returned by its pauses in order, and the service is asked afresh. -/
namespace Suspension

variable {Query Reply Shown Answer Result : Type*}

inductive Program (Query Reply Shown Answer Result : Type*) where
  | done (result : Result)
  | ask (query : Query) (next : Reply → Program Query Reply Shown Answer Result)
  | pause (shown : Shown) (next : Answer → Program Query Reply Shown Answer Result)

inductive Status (Shown Result : Type*) where
  | finished (result : Result)
  | paused (shown : Shown)

/-- One execution, with the replies of the service and the answers to earlier
pauses. It uses up every reply. -/
def execute : Program Query Reply Shown Answer Result → List Reply → List Answer →
    Option (Status Shown Result)
  | .done result, [], _ => some (.finished result)
  | .ask _ next, reply :: replies, answers => execute (next reply) replies answers
  | .pause shown _, [], [] => some (.paused shown)
  | .pause _ next, replies, answer :: answers => execute (next answer) replies answers
  | _, _, _ => none

/-- A program that asks once and pauses once shows what it made of the reply. -/
theorem execute_first (query : Query) (show' : Reply → Shown) (finish : Reply → Answer → Result)
    (reply : Reply) :
    execute (.ask query fun reply => .pause (show' reply) fun answer => .done (finish reply answer))
      [reply] [] = some (.paused (show' reply)) := rfl

/-- Resumed with an answer it finishes with the reply of the new execution. What
it had shown was made of another reply. -/
theorem execute_again (query : Query) (show' : Reply → Shown) (finish : Reply → Answer → Result)
    (reply : Reply) (answer : Answer) :
    execute (.ask query fun reply => .pause (show' reply) fun answer => .done (finish reply answer))
      [reply] [answer] = some (.finished (finish reply answer)) := rfl

end Suspension
