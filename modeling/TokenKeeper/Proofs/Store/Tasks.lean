import TokenKeeper.Proofs.Store.Steps

/-!
# Saves and loads at once

Any number of saves and loads share one back end. Where a task stands is all that its next step
depends on: a save of the sealed store may have looked for credentials to seal again, and a load may
have found a document and judged it by the clock. All saves and loads keep to these rules.
-/
namespace TokenKeeper

inductive StoreTask
  | save (key : String) (tokens : Tokens) (credentials : Option Credentials) (expiresAt : Instant)
  | load (key : String)

namespace StoreTask

def program (b : StoreKind) : StoreTask → Program (Option StoredEntry)
  | .save key tokens credentials expiresAt =>
    (b.store.save key tokens credentials expiresAt).bind fun _ => .done none
  | .load key => (b.store.load key).bind fun e => .done (some e)

/-- Where a task stands. -/
inductive TaskState
  | fresh
  | looked (credentials : Option Credentials)
  | written
  | found (doc : Document)
  | judged (doc : Document) (now : Instant)
  | over

inductive Allows (b : StoreKind) : StoreTask → TaskState → Op → Prop
  | nonce {key : String} {tokens : Tokens} {credentials : Option Credentials}
    {expiresAt : Instant} {s : TaskState} :
    Allows b (.save key tokens credentials expiresAt) s .nonce
  | look {ck : CipherKey} {key : String} {tokens : Tokens} {credentials : Option Credentials}
    {expiresAt : Instant} (hb : b = .sealedDocuments ck)
    (hc : Credentials.given credentials = none) :
    Allows b (.save key tokens credentials expiresAt) .fresh (.find key)
  | write {key : String} {tokens : Tokens} {credentials : Option Credentials}
    {expiresAt : Instant} {op : Op}
    (hb : ∀ ck, b = .sealedDocuments ck → Credentials.given credentials = credentials ∧
      credentials.isSome) (h : b.Writes key tokens credentials expiresAt op) :
    Allows b (.save key tokens credentials expiresAt) .fresh op
  | reseal {ck : CipherKey} {key : String} {tokens : Tokens}
    {credentials found : Option Credentials} {expiresAt : Instant} {op : Op}
    (hb : b = .sealedDocuments ck) (hc : Credentials.given credentials = none)
    (h : b.Writes key tokens found expiresAt op) :
    Allows b (.save key tokens credentials expiresAt) (.looked found) op
  | fetch {key : String} (hb : b = .memory) : Allows b (.load key) .fresh (.recall key)
  | find {key : String} (hb : b ≠ .memory) : Allows b (.load key) .fresh (.find key)
  | clock {key : String} {doc : Document} : Allows b (.load key) (.found doc) .now
  | purge {key : String} {doc : Document} {now : Instant} {e : StoredEntry}
    (h : b.Documented key e doc) (he : e.isExpiredAt now = true) :
    Allows b (.load key) (.judged doc now)
      (.deleteIf key expiryField (.str (Timestamp.text e.expiresAt)))

def afterFind (b : StoreKind) : StoreTask → Except Failure (Option Document) → TaskState
  | .save .., .ok found => .looked (found.bind b.sealedIn?)
  | .load _, .ok (some doc) => .found doc
  | _, _ => .over

def afterNow : TaskState → Instant → TaskState
  | .found doc, now => .judged doc now
  | _, _ => .over

def next (b : StoreKind) (t : StoreTask) (s : TaskState) : (op : Op) → op.Answer → TaskState
  | .nonce, _ => s
  | .find _, answer => t.afterFind b answer
  | .now, now => afterNow s now
  | .upsert .., _ => .written
  | .keep .., _ => .written
  | _, _ => .over

/-- A save ends when it has written, and a load of documents with the entry of the one that it has
found and judged to be live. -/
def Ends (b : StoreKind) : StoreTask → TaskState → Except Failure (Option StoredEntry) → Prop
  | .save .., s, r => r = .ok none ∧ s = .written
  | .load key, s, r => b ≠ .memory → ∀ a, r = .ok a → ∃ e doc now, a = some (b.shown key e) ∧
    s = .judged doc now ∧ b.Documented key e doc ∧ e.isExpiredAt now = false

def rules (b : StoreKind) (t : StoreTask) : Discipline TaskState where
  allows _ s op := Allows b t s op
  expects _ := b.Answers
  next := t.next b
  gone := .over

variable {b : StoreKind}

theorem Allows.answers {t : StoreTask} {s : TaskState} {op : Op} (h : Allows b t s op)
    {m : Dict StoredEntry} {w : World} (himage : b.image m w) :
    b.Answers op (World.perform op w).1 := by
  cases h with
  | nonce => exact trivial
  | look hb hc =>
    cases hb
    exact StoreKind.answers_find himage nofun _
  | write hb h => exact h.answers himage
  | reseal hb hc h => exact h.answers himage
  | fetch hb => exact trivial
  | find hb => exact StoreKind.answers_find himage hb _
  | clock => exact trivial
  | purge h he => exact StoreKind.answers_purge himage h.not_memory _ _

theorem next_of_writes {t : StoreTask} {s : TaskState} {key : String} {tokens : Tokens}
    {credentials : Option Credentials} {expiresAt : Instant} {op : Op} {a : op.Answer}
    (h : b.Writes key tokens credentials expiresAt op) : t.next b s op a = .written := by
  cases h <;> rfl

/-! ### Saves and loads keep to the rules -/

theorem obeys_save (b : StoreKind) (key : String) (tokens : Tokens)
    (credentials : Option Credentials) (expiresAt : Instant) :
    (b.store.save key tokens credentials expiresAt).Obeys
      (rules b (.save key tokens credentials expiresAt))
      (fun _ s r => r = .ok () ∧ s = .written) [] .fresh := by
  refine b.obeys_save (fun _ _ _ h => h) ⟨.nonce, fun _ => rfl⟩ ?_ ?_
  · exact fun op hb hwrites => ⟨.write hb hwrites, fun _ => ⟨rfl, next_of_writes hwrites⟩⟩
  · rintro ck hb hc
    refine ⟨.look hb hc, ?_⟩
    rintro found _ rfl
    refine ⟨⟨.nonce, fun _ => rfl⟩, fun op hwrites => ?_⟩
    exact ⟨.reseal hb hc hwrites, fun _ => ⟨rfl, next_of_writes hwrites⟩⟩

theorem obeys_program (b : StoreKind) (t : StoreTask) :
    (t.program b).Obeys (t.rules b) (fun _ => t.Ends b) [] .fresh := by
  cases t with
  | save key tokens credentials expiresAt =>
    refine (obeys_save b key tokens credentials expiresAt).bind ?_ ?_
    · rintro _ s a ⟨-, hs⟩
      exact ⟨rfl, hs⟩
    · rintro _ s e ⟨h, -⟩
      cases h
  | load key =>
    have hload : (b.store.load key).Obeys (rules b (.load key)) (fun _ s r => b ≠ .memory →
        ∀ a, r = .ok a → ∃ e doc now, a = b.shown key e ∧ s = .judged doc now ∧
          b.Documented key e doc ∧ e.isExpiredAt now = false) [] .fresh := by
      by_cases hb : b = .memory
      · cases hb
        exact ⟨.fetch rfl, fun a _ => Program.obeys_ofExcept fun h => absurd rfl h⟩
      · refine StoreKind.obeys_load hb (.find hb) (fun _ _ _ h => h) (fun _ _ a h => nomatch h) ?_
        rintro e doc _ hdoc - rfl
        refine ⟨.clock, ?_⟩
        rintro now _ - rfl
        refine ⟨?_, fun he => ⟨.purge hdoc he, fun removed _ a h => nomatch h⟩⟩
        rintro he - _ ⟨⟩
        exact ⟨e, doc, now, rfl, rfl, hdoc, he⟩
    refine hload.bind ?_ ?_
    · rintro _ s a h hb _ ⟨⟩
      obtain ⟨e, doc, now, rfl, hs, hdoc, he⟩ := h hb a rfl
      exact ⟨e, doc, now, rfl, hs, hdoc, he⟩
    · rintro _ s e h hb _ ⟨⟩

end StoreTask

/-! ### Tasks on one back end -/

def taskAt (ts : List StoreTask) (i : Nat) : StoreTask := ts.getD i (.load "")

theorem taskAt_eq {ts : List StoreTask} {i : Nat} {t : StoreTask} (h : ts[i]? = some t) :
    taskAt ts i = t := by
  rw [taskAt, List.getD_eq_getElem?_getD, h]
  rfl

theorem getElem?_of_save {ts : List StoreTask} {i : Nat} {key : String} {tokens : Tokens}
    {credentials : Option Credentials} {expiresAt : Instant}
    (h : taskAt ts i = .save key tokens credentials expiresAt) :
    ts[i]? = some (.save key tokens credentials expiresAt) := by
  cases ht : ts[i]? with
  | none =>
    rw [taskAt, List.getD_eq_getElem?_getD, ht] at h
    cases h
  | some t => rw [← h, taskAt_eq ht]

namespace StoreKind

def tasks (b : StoreKind) (ts : List StoreTask) (w : World) : TaskPool (Option StoredEntry) :=
  ⟨ts.map fun t => .start (t.program b), w⟩

theorem obeys_tasks (b : StoreKind) (ts : List StoreTask) (w : World) :
    (b.tasks ts w).Obeys (fun i => (taskAt ts i).rules b) (fun i _ => (taskAt ts i).Ends b)
      fun _ => .fresh := by
  intro i t ht
  obtain ⟨task, htask, rfl⟩ := Option.map_eq_some_iff.mp (List.getElem?_map.symm.trans ht)
  change (Task.start (task.program b)).Obeys ((taskAt ts i).rules b)
    (fun _ => (taskAt ts i).Ends b) _
  rw [taskAt_eq htask]
  exact ⟨task.obeys_program b, fun op hop => absurd hop List.not_mem_nil⟩

end StoreKind

/-! ### Writes in a history -/

def Op.writesTo (key : String) : Op → Bool
  | .keep k _ _ _ => k == key
  | .upsert k _ => k == key
  | _ => false

theorem StoreKind.Writes.writesTo {b : StoreKind} {key : String} {tokens : Tokens}
    {credentials : Option Credentials} {expiresAt : Instant} {op : Op}
    (h : b.Writes key tokens credentials expiresAt op) (other : String) :
    op.writesTo other = (key == other) := by
  cases h <;> rfl

theorem Op.writesTo_outer {op : Op} (h : op.isOuter = true) (key : String) :
    op.writesTo key = false := by
  cases op <;> first | contradiction | rfl

end TokenKeeper
