import TokenKeeper.World

/-!
# Tasks that run at once

Several programs run at once by taking turns, a step at a time, in any order. A step that is not
enabled waits. A task may be cancelled between two steps: what it owes, such as the release of a
lock that it holds, is still done, again a step at a time. `Task.owe` keeps the account: a share in
a lock is owed back from its checkout on, and the lock from its acquisition on.
-/
namespace TokenKeeper

/-- A program under way with what it owes, or what a cancelled one still owes. -/
inductive Task (α : Type)
  | running (program : Program α) (owed : List Op)
  | leaving (owed : List Op)

namespace Task

variable {α σ : Type}

def start (program : Program α) : Task α := .running program []

def owe (owed : List Op) : (op : Op) → op.Answer → List Op
  | .checkout _, slot => .retire slot :: .forget slot :: owed
  | .acquire slot, _ => .release slot :: owed
  | .release _, _ => owed.drop 1
  | .retire _, _ => owed.drop 1
  | .forget _, _ => owed.drop 1
  | _, _ => owed

def next? : Task α → Option Op
  | .running (.step op _) _ => some op
  | .leaving (op :: _) => some op
  | _ => none

def advance (act : (op : Op) → σ → op.Answer × σ) (enabled : Op → σ → Bool) (t : Task α) (s : σ) :
    Task α × σ :=
  match t with
  | .running (.step op next) owed =>
    if enabled op s then
      let (answer, s) := act op s
      (.running (next answer) (owe owed op answer), s)
    else (t, s)
  | .leaving (op :: owed) => (.leaving owed, (act op s).2)
  | t => (t, s)

def cancel : Task α → Task α
  | .running _ owed => .leaving owed
  | t => t

def result? : Task α → Option (Except Failure α)
  | .running (.done a) _ => some (.ok a)
  | .running (.fail e) _ => some (.error e)
  | _ => none

def isOver (t : Task α) : Bool := t.next?.isNone

def round (act : (op : Op) → σ → op.Answer × σ) (enabled : Op → σ → Bool) :
    List (Task α) → σ → List (Task α) × σ
  | [], s => ([], s)
  | t :: rest, s =>
    let (t, s) := t.advance act enabled s
    let (rest, s) := round act enabled rest s
    (t :: rest, s)

def rounds (act : (op : Op) → σ → op.Answer × σ) (enabled : Op → σ → Bool) :
    Nat → List (Task α) → σ → List (Task α) × σ
  | 0, ts, s => (ts, s)
  | n + 1, ts, s =>
    if ts.all isOver then (ts, s)
    else
      let (ts, s) := round act enabled ts s
      rounds act enabled n ts s

end Task

/-! ### All the ways to go on -/

inductive Move
  | run (index : Nat)
  | cancel (index : Nat)
  | clock (now : Instant)

structure TaskPool (α : Type) where
  tasks : List (Task α)
  world : World

namespace TaskPool

variable {α : Type}

def change (c : TaskPool α) (index : Nat) (f : Task α → World → Task α × World) : TaskPool α :=
  match c.tasks[index]? with
  | some t =>
    let (t, world) := f t c.world
    ⟨c.tasks.set index t, world⟩
  | none => c

def move (c : TaskPool α) : Move → TaskPool α
  | .run i => c.change i fun t w => t.advance World.perform World.enabled w
  | .cancel i => c.change i fun t w => (t.cancel, w)
  | .clock now => { c with world := { c.world with clock := now } }

def after (c : TaskPool α) (moves : List Move) : TaskPool α := moves.foldl move c

end TaskPool
end TokenKeeper
