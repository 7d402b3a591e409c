import TokenKeeper.Cipher.Blob
import TokenKeeper.Counter
import TokenKeeper.Flight
import TokenKeeper.Grant.Exchange
import TokenKeeper.Headers

/-!
# Programs over a world

Token stores and the client act on the world by single steps, each of which happens at once: a look
at the clock, an operation on a collection of documents or on the entries kept in memory, a request
to the token endpoint, a step of the registry of locks. `Op` lists these steps with what each
answers. A `Program` is a tree of them: it is done, or has failed, or takes a step and goes on with
the answer. What happens between two steps of one program is up to the others.
-/
namespace TokenKeeper

inductive Op
  | now
  | find (key : String)
  | upsert (key : String) (fields : Document)
  | delete (key : String)
  | deleteIf (key field : String) (expected : Json)
  | recall (key : String)
  | recallAny (key : String)
  | keep (key : String) (tokens : Tokens) (credentials : Option Credentials) (expiresAt : Instant)
  | nonce
  | post (form : Form)
  | send (headers : Headers)
  | count (counter : Counter)
  | checkout (key : String)
  | acquire (slot : Slot)
  | release (slot : Slot)
  | retire (slot : Slot)
  | forget (slot : Slot)

def Op.Answer : Op → Type
  | .now => Instant
  | .find _ => Except Failure (Option Document)
  | .upsert .. | .delete _ => Except Failure Unit
  | .deleteIf .. => Except Failure Bool
  | .recall _ => Except Failure StoredEntry
  | .recallAny _ => Option StoredEntry
  | .keep .. => Unit
  | .nonce => Nonce
  | .post _ => Exchange
  | .send _ => Option Nat
  | .count _ => Unit
  | .checkout _ => Slot
  | .acquire _ | .release _ | .retire _ | .forget _ => Unit

inductive Program (α : Type)
  | done (value : α)
  | fail (failure : Failure)
  | step (op : Op) (next : op.Answer → Program α)

namespace Program

variable {α β σ : Type}

def bind : Program α → (α → Program β) → Program β
  | .done a, f => f a
  | .fail e, _ => .fail e
  | .step op next, f => .step op fun answer => (next answer).bind f

instance : Monad Program where
  pure := .done
  bind := bind

def perform (op : Op) : Program op.Answer := .step op .done

def ofExcept : Except Failure α → Program α
  | .ok a => .done a
  | .error e => .fail e

def attempt : Program α → Program (Except Failure α)
  | .done a => .done (.ok a)
  | .fail e => .done (.error e)
  | .step op next => .step op fun answer => (next answer).attempt

def run (act : (op : Op) → σ → op.Answer × σ) : Program α → σ → Except Failure α × σ
  | .done a, s => (.ok a, s)
  | .fail e, s => (.error e, s)
  | .step op next, s =>
    let (answer, s) := act op s
    (next answer).run act s

theorem run_bind (act : (op : Op) → σ → op.Answer × σ) (p : Program α) (f : α → Program β) (s : σ) :
    (p.bind f).run act s =
      match p.run act s with
      | (.ok a, s) => (f a).run act s
      | (.error e, s) => (.error e, s) := by
  induction p generalizing s with
  | done a => rfl
  | fail e => rfl
  | step op next ih => simp only [bind, run]; exact ih _ _

theorem run_attempt (act : (op : Op) → σ → op.Answer × σ) (p : Program α) (s : σ) :
    p.attempt.run act s = (.ok (p.run act s).1, (p.run act s).2) := by
  induction p generalizing s with
  | done a => rfl
  | fail e => rfl
  | step op next ih => simp only [attempt, run]; exact ih _ _

end Program
end TokenKeeper
