import TokenKeeper.Proofs.Store.Contents
import TokenKeeper.Proofs.Tasks

/-!
# Programs of stores of documents

Loads and saves of both kinds of documents look at the clock, find a document, put texts into one,
delete one under a condition, and draw nonces. For a key they take three such steps at most, all of
them on the document of this key. What these steps keep, any use of such a store keeps.
-/
namespace TokenKeeper

inductive Op.OnDocuments : Op → Prop
  | now : OnDocuments .now
  | nonce : OnDocuments .nonce
  | find (key : String) : OnDocuments (.find key)
  | put (key : String) {fields : Document} (h : ∃ fs, fields = Row.strings fs) :
    OnDocuments (.upsert key fields)
  | deleteIf (key field : String) (expected : Json) : OnDocuments (.deleteIf key field expected)

inductive Op.OnDocument (key : String) : Op → Prop
  | now : OnDocument key .now
  | nonce : OnDocument key .nonce
  | find : OnDocument key (.find key)
  | put {fields : Document} (h : ∃ fs, fields = Row.strings fs) :
    OnDocument key (.upsert key fields)
  | deleteIf (field : String) (expected : Json) : OnDocument key (.deleteIf key field expected)

theorem Op.OnDocument.onDocuments {key : String} {op : Op} (h : op.OnDocument key) :
    op.OnDocuments := by
  cases h with
  | now => exact .now
  | nonce => exact .nonce
  | find => exact .find key
  | put h => exact .put key h
  | deleteIf field expected => exact .deleteIf key field expected

def Program.OnDocuments {α : Type} (p : Program α) : Prop :=
  p.AllSteps Op.OnDocuments fun _ _ => True

namespace TokenStore

structure OnDocuments (store : TokenStore) : Prop where
  load : ∀ key, (store.load key).OnDocuments
  save : ∀ key tokens credentials expiresAt,
    (store.save key tokens credentials expiresAt).OnDocuments

structure TakesAtMostThree (store : TokenStore) : Prop where
  load : ∀ key, (store.load key).TakesAtMost (Op.OnDocument key) 3
  save : ∀ key tokens credentials expiresAt,
    (store.save key tokens credentials expiresAt).TakesAtMost (Op.OnDocument key) 3

theorem findStored_takesAtMost (key : String) :
    (findStored key).TakesAtMost (Op.OnDocument key) 1 := by
  refine (Program.takesAtMost_perform .find).bind (k := 0) fun answer => ?_
  refine (Program.takesAtMost_ofExcept answer 0).bind (k := 0) fun found => ?_
  split <;> exact trivial

theorem purge_takesAtMost {α : Type} (key : String) (doc : Document) :
    (purge (α := α) key doc).TakesAtMost (Op.OnDocument key) 1 := by
  unfold purge
  split
  · next stored _ =>
    refine (Program.takesAtMost_perform (.deleteIf expiryField stored)).bind (k := 0)
      fun answer => ?_
    exact (Program.takesAtMost_ofExcept answer 0).bind (k := 0) fun _ => trivial
  · exact trivial

theorem credentialsToSeal_takesAtMost (ck : CipherKey) (key : String)
    (credentials : Option Credentials) :
    (credentialsToSeal ck key credentials).TakesAtMost (Op.OnDocument key) 1 := by
  unfold credentialsToSeal
  split
  · exact trivial
  · refine (Program.takesAtMost_perform .find).bind (k := 0) fun answer => ?_
    refine (Program.takesAtMost_ofExcept answer 0).bind (k := 0) fun found => ?_
    split <;> exact trivial

theorem documents_takesAtMostThree : documents.TakesAtMostThree where
  load key := by
    refine (findStored_takesAtMost key).bind (k := 2) fun doc => ?_
    split
    · exact trivial
    · refine (Program.takesAtMost_perform .now).bind (k := 1) fun now => ?_
      split
      · exact purge_takesAtMost key doc
      · exact trivial
  save key tokens credentials expiresAt := by
    have hfields := TokenDocument.fields_eq_strings key tokens credentials expiresAt
    refine (Program.takesAtMost_perform (.put ⟨_, hfields⟩)).bind (k := 2) fun answer => ?_
    exact Program.takesAtMost_ofExcept answer 2

theorem sealedDocuments_takesAtMostThree (ck : CipherKey) :
    (sealedDocuments ck).TakesAtMostThree where
  load key := by
    refine (findStored_takesAtMost key).bind (k := 2) fun doc => ?_
    split
    · exact trivial
    · refine (Program.takesAtMost_perform .now).bind (k := 1) fun now => ?_
      split
      · exact purge_takesAtMost key doc
      · exact (Program.takesAtMost_ofExcept _ 1).bind (k := 0) fun _ => trivial
  save key tokens credentials expiresAt := by
    refine (credentialsToSeal_takesAtMost ck key credentials).bind (k := 2) fun inside => ?_
    refine (Program.takesAtMost_perform .nonce).bind (k := 1) fun nonce => ?_
    have hfields := SealedDocument.fields_eq_strings ck nonce key ⟨tokens, inside⟩ expiresAt
    refine (Program.takesAtMost_perform (.put ⟨_, hfields⟩)).bind (k := 0) fun answer => ?_
    exact Program.takesAtMost_ofExcept answer 0

theorem TakesAtMostThree.onDocuments {store : TokenStore} (h : store.TakesAtMostThree) :
    store.OnDocuments where
  load key := (h.load key).allSteps.mono fun _ => Op.OnDocument.onDocuments
  save key tokens credentials expiresAt :=
    (h.save key tokens credentials expiresAt).allSteps.mono fun _ => Op.OnDocument.onDocuments

end TokenStore
end TokenKeeper
