import TokenKeeper.Proofs.Client.Steps

/-!
# Media that may fail

A medium may refuse a write at any step. A save that fails leaves everything that is stored as it
was, and one that succeeds leaves all other keys as they were. Since a success shows that the medium
took the write, it comes to the same as a save on a medium that takes them all. As nothing at all is
written while a medium takes no writes, what a back end held before is there when it takes them
again.
-/
namespace TokenKeeper

namespace World

variable {w w' : World} {key other : String} {fields : Document} {docs : Holdings}

theorem SameInside.refl (w : World) : w.SameInside w := ⟨rfl, rfl, rfl, rfl, rfl⟩

theorem SameInside.trans {v : World} (h : w.SameInside w') (h' : w'.SameInside v) :
    w.SameInside v :=
  ⟨h'.collection.trans h.collection, h'.disk.trans h.disk, h'.database.trans h.database,
    h'.memory.trans h.memory, h'.fault.trans h.fault⟩

theorem SameInside.symm (h : w.SameInside w') : w'.SameInside w :=
  ⟨h.collection.symm, h.disk.symm, h.database.symm, h.memory.symm, h.fault.symm⟩

structure SameUnder (key : String) (w w' : World) : Prop where
  document : w'.find key = w.find key
  entry : Dict.get? w'.memory key = Dict.get? w.memory key

theorem SameInside.sameUnder (h : w.SameInside w') (key : String) : SameUnder key w w' := by
  refine ⟨?_, by rw [h.memory]⟩
  unfold World.find
  rw [h.collection, h.database]

theorem SameUnder.trans {v : World} (h : SameUnder key w w') (h' : SameUnder key w' v) :
    SameUnder key w v :=
  ⟨h'.document.trans h.document, h'.entry.trans h.entry⟩

/-! ### Upserts -/

inductive Upserted (w : World) (key : String) : World → Prop
  | file {c : FileCollection} {doc : Document} {d : Disk} (hc : w.collection = .file c)
    (hreplace : w.disk.replace c.path
      (FileCollection.text (Dict.insert c.documents key doc)) none = .ok d) :
    Upserted w key (w.withFile (⟨c.path, Dict.insert c.documents key doc⟩, d))
  | row {name text : String} {rows : TableRows} (hc : w.collection = .table name)
    (hd : w.database = .ready rows) :
    Upserted w key { w with database := .ready (Database.setText rows name key text) }

theorem upserted_row {name : String} {db db' : Database}
    (h : db.upsert name key fields = .ok db') :
    ∃ rows text, db = .ready rows ∧
      Database.merged? (Database.text? rows name key) fields = some text ∧
      db' = .ready (Database.setText rows name key text) := by
  cases db with
  | ready rows =>
    simp only [Database.upsert, Database.rows, bind, Except.bind] at h
    split at h
    · next text htext =>
      cases h
      exact ⟨rows, text, rfl, htext, rfl⟩
    · cases h
  | dropped => cases h
  | blocked => cases h

theorem upserted_of_upsert (h : w.upsert key fields = .ok w') :
    w.fault = none ∧ w.Upserted key w' := by
  cases changed_of_upsert h with
  | @file c changed hc hstore =>
    obtain ⟨c', d⟩ := changed
    obtain ⟨rfl, hreplace⟩ := FileCollection.store_eq_ok hstore
    have hnoFault := Disk.mishap_of_replace hreplace
    rw [hnoFault] at hreplace
    exact ⟨hnoFault, .file hc hreplace⟩
  | table hc hnoFault hupsert =>
    obtain ⟨rows, text, hd, -, rfl⟩ := upserted_row hupsert
    exact ⟨hnoFault, .row hc hd⟩

theorem Upserted.sameUnder (h : w.Upserted key w') (hne : key ≠ other) : SameUnder other w w' := by
  cases h with
  | file hc =>
    refine ⟨?_, rfl⟩
    simp [World.find, hc, withFile, FileCollection.find, Dict.get?_insert, hne]
  | row hc hd =>
    refine ⟨?_, rfl⟩
    simp only [World.find, hc, hd, Database.find, Database.rows, bind, Except.bind,
      Database.text?_setText, if_neg hne]

/-! ### Contents on any medium -/

/-- The collection in use holds these documents, as far as it can be read at all. -/
def Contains (w : World) (docs : Holdings) : Prop :=
  match w.collection with
  | .file c => ∀ key, Dict.get? c.documents key = docs key
  | .table name => ∀ rows, w.database = .ready rows → Database.HoldsTexts rows name docs

theorem Holds.contains (h : w.Holds docs) : w.Contains docs := by
  obtain ⟨-, hmedium⟩ := h
  unfold Contains
  split
  · next c hc =>
    rw [hc] at hmedium
    exact hmedium.2
  · next name hc =>
    rw [hc] at hmedium
    obtain ⟨rows, hd, hrows⟩ := hmedium
    intro rows' hd'
    rw [hd] at hd'
    cases hd'
    exact hrows

theorem Contains.congr (h : w.Contains docs) (hw : w.SameInside w') : w'.Contains docs := by
  unfold Contains
  rw [hw.collection, hw.database]
  exact h

theorem Contains.holds (h : w.Contains docs) (hnoFault : w.fault = none)
    (hupserted : w.Upserted key w') : w.Holds docs := by
  refine ⟨hnoFault, ?_⟩
  unfold Contains at h
  cases hupserted with
  | file hc hreplace =>
    rw [hc] at h ⊢
    exact ⟨Disk.writable_of_replace hreplace, h⟩
  | row hc hd =>
    rw [hc] at h ⊢
    exact ⟨_, hd, h _ hd⟩

end World

/-! ### Saves -/

namespace StoreKind

/-- The entries that a back end holds in a world, whether it takes writes or not. -/
def Contents : StoreKind → Dict StoredEntry → World → Prop
  | .memory => fun m w => w.memory = m
  | .documents => fun m w => w.Contains (TokenDocument.holdings m)
  | .sealedDocuments key => fun m w => ∃ docs, w.Contains docs ∧ SealedDocument.Seals key m docs

variable {b : StoreKind} {m : Dict StoredEntry} {w : World}

theorem contents_of_image (h : b.image m w) : b.Contents m w := by
  cases b with
  | memory => exact h
  | documents => exact World.Holds.contains h
  | sealedDocuments ck =>
    obtain ⟨docs, hholds, hseals⟩ := h
    exact ⟨docs, hholds.contains, hseals⟩

theorem Contents.congr {w' : World} (h : b.Contents m w) (hw : w.SameInside w') :
    b.Contents m w' := by
  cases b with
  | memory => exact hw.memory.trans h
  | documents => exact World.Contains.congr h hw
  | sealedDocuments ck =>
    obtain ⟨docs, hdocs, hseals⟩ := h
    exact ⟨docs, hdocs.congr hw, hseals⟩

/-- How a save may end. If it is done, what the back end holds was on a medium that takes writes. -/
inductive Saved (b : StoreKind) (key : String) (w w' : World) : Except Failure Unit → Prop
  | failed (e : Failure) (hinside : w.SameInside w') : Saved b key w w' (.error e)
  | done (hothers : ∀ other, other ≠ key → World.SameUnder other w w')
    (himage : ∀ m, b.Contents m w → b.image m w) : Saved b key w w' (.ok ())

theorem saved_upsert {v : World} (hin : w.SameInside v) (hout : w.SameOutside v) {key : String}
    {fields : Document} (himage : (∀ docs, w.Contains docs → w.Holds docs) →
      ∀ m, b.Contents m w → b.image m w) :
    w.SameOutside (World.perform (.upsert key fields) v).2 ∧
      b.Saved key w (World.perform (.upsert key fields) v).2
        (World.perform (.upsert key fields) v).1 := by
  change w.SameOutside (v.settle (v.upsert key fields)).2 ∧
    b.Saved key w (v.settle (v.upsert key fields)).2 (v.settle (v.upsert key fields)).1
  cases hupsert : v.upsert key fields with
  | error e => exact ⟨hout, .failed e hin⟩
  | ok v' =>
    obtain ⟨hnoFault, hupserted⟩ := World.upserted_of_upsert hupsert
    have hout' := hout.trans (World.changed_of_upsert hupsert).sameOutside
    refine ⟨hout', .done (fun other hne => ?_) (himage ?_)⟩
    · exact (hin.sameUnder other).trans (hupserted.sameUnder (Ne.symm hne))
    · intro docs hdocs
      exact ((hdocs.congr hin).holds hnoFault hupserted).congr hin.symm

theorem snd_run_credentialsToSeal (ck : CipherKey) (key : String)
    (credentials : Option Credentials) (w : World) :
    ((TokenStore.credentialsToSeal ck key credentials).run World.perform w).2 = w := by
  unfold TokenStore.credentialsToSeal
  cases Credentials.given credentials with
  | some c => rfl
  | none =>
    change (((Program.ofExcept (w.find key)).bind _).run World.perform w).2 = w
    cases w.find key with
    | error e => rfl
    | ok found => cases found <;> rfl

theorem run_documents_save (key : String) (tokens : Tokens) (credentials : Option Credentials)
    (expiresAt : Instant) (w : World) :
    (documents.store.save key tokens credentials expiresAt).run World.perform w =
      World.perform (.upsert key (TokenDocument.fields key tokens credentials expiresAt)) w :=
  run_upsert key _ w

theorem run_sealed_save (ck : CipherKey) (key : String) (tokens : Tokens)
    (credentials : Option Credentials) (expiresAt : Instant) (w : World) :
    ((TokenStore.sealedDocuments ck).save key tokens credentials expiresAt).run World.perform w =
      match ((TokenStore.credentialsToSeal ck key credentials).run World.perform w).1 with
      | .error e => (.error e, w)
      | .ok inside => World.perform
          (.upsert key (SealedDocument.fields ck (w.nonces w.drawn) key ⟨tokens, inside⟩ expiresAt))
          { w with drawn := w.drawn + 1 } := by
  have hlook := snd_run_credentialsToSeal ck key credentials w
  refine (Program.run_bind _ _ _ w).trans ?_
  cases hseal : (TokenStore.credentialsToSeal ck key credentials).run World.perform w with
  | mk looked v =>
    rw [hseal] at hlook
    obtain rfl : w = v := hlook.symm
    cases looked with
    | error e => rfl
    | ok inside => exact run_upsert key _ _

theorem saved_save (b : StoreKind) (key : String) (tokens : Tokens)
    (credentials : Option Credentials) (expiresAt : Instant) (w : World) :
    w.SameOutside ((b.store.save key tokens credentials expiresAt).run World.perform w).2 ∧
      b.Saved key w ((b.store.save key tokens credentials expiresAt).run World.perform w).2
        ((b.store.save key tokens credentials expiresAt).run World.perform w).1 := by
  cases b with
  | memory =>
    refine ⟨⟨rfl, rfl, rfl, rfl, rfl, rfl, rfl⟩, .done (fun other hne => ⟨rfl, ?_⟩) fun m h => h⟩
    change Dict.get? (Memory.save w.memory key tokens credentials expiresAt) other = _
    rw [Memory.save, Dict.get?_insert, if_neg (Ne.symm hne)]
  | documents =>
    rw [run_documents_save]
    exact saved_upsert (.refl w) (.refl w) fun hholds m h => hholds _ h
  | sealedDocuments ck =>
    change w.SameOutside (((TokenStore.sealedDocuments ck).save _ _ _ _).run World.perform w).2 ∧
      Saved _ key w (((TokenStore.sealedDocuments ck).save _ _ _ _).run World.perform w).2
        (((TokenStore.sealedDocuments ck).save _ _ _ _).run World.perform w).1
    rw [run_sealed_save]
    cases ((TokenStore.credentialsToSeal ck key credentials).run World.perform w).1 with
    | error e => exact ⟨.refl w, .failed e (.refl w)⟩
    | ok inside =>
      have hin : w.SameInside { w with drawn := w.drawn + 1 } := ⟨rfl, rfl, rfl, rfl, rfl⟩
      have hout : w.SameOutside { w with drawn := w.drawn + 1 } :=
        ⟨rfl, rfl, rfl, rfl, rfl, rfl, rfl⟩
      refine saved_upsert hin hout ?_
      rintro hholds m ⟨docs, hdocs, hseals⟩
      exact ⟨docs, hholds docs hdocs, hseals⟩

theorem sameUnder_of_save {key : String} {tokens : Tokens} {credentials : Option Credentials}
    {expiresAt : Instant} {w' : World}
    (hsave : (b.store.save key tokens credentials expiresAt).run World.perform w = (.ok (), w'))
    {other : String} (hne : other ≠ key) : World.SameUnder other w w' := by
  obtain ⟨-, hsaved⟩ := b.saved_save key tokens credentials expiresAt w
  rw [hsave] at hsaved
  cases hsaved with
  | done hothers => exact hothers other hne

theorem image_of_save (h : b.Contents m w) {key : String} {tokens : Tokens}
    {credentials : Option Credentials} {expiresAt : Instant} {w' : World}
    (hsave : (b.store.save key tokens credentials expiresAt).run World.perform w = (.ok (), w')) :
    b.image (Memory.save m key tokens credentials expiresAt) w' := by
  obtain ⟨-, hsaved⟩ := b.saved_save key tokens credentials expiresAt w
  rw [hsave] at hsaved
  cases hsaved with
  | done _ himage =>
    obtain ⟨w'', hrun, hafter, -⟩ := b.keeps.save (himage m h) key tokens credentials expiresAt
    rw [hsave] at hrun
    cases hrun
    exact hafter

end StoreKind

/-! ### While a medium takes no writes -/

namespace FileCollection

variable {c : FileCollection} {d : Disk} {step : WriteStep} {key field : String} {expected : Json}
  {removed : Bool} {changed : FileCollection × Disk}

theorem store_ne_ok {next : Dict Document} : c.store d (some step) next ≠ .ok changed := by
  intro h
  obtain ⟨-, hreplace⟩ := store_eq_ok h
  cases Disk.mishap_of_replace hreplace

theorem delete_of_mishap (h : c.delete d (some step) key = .ok changed) : changed = (c, d) := by
  unfold delete at h
  split at h
  · exact absurd h store_ne_ok
  · cases h
    rfl

theorem deleteIf_of_mishap (h : c.deleteIf d (some step) key field expected =
    .ok (removed, changed)) : changed = (c, d) := by
  unfold deleteIf at h
  split at h
  · obtain ⟨stored, hstore, -⟩ := bind_eq_ok_iff.mp h
    exact absurd hstore store_ne_ok
  · cases h
    rfl

end FileCollection

namespace World

/-- What documents are kept in is as it was. -/
structure SameMedium (w w' : World) : Prop where
  collection : w'.collection = w.collection
  disk : w'.disk = w.disk
  database : w'.database = w.database
  fault : w'.fault = w.fault

def withoutFault (w : World) : World := { w with fault := none }

variable {w w' : World}

theorem SameMedium.refl (w : World) : w.SameMedium w := ⟨rfl, rfl, rfl, rfl⟩

theorem SameMedium.trans {v : World} (h : w.SameMedium w') (h' : w'.SameMedium v) :
    w.SameMedium v :=
  ⟨h'.collection.trans h.collection, h'.disk.trans h.disk, h'.database.trans h.database,
    h'.fault.trans h.fault⟩

theorem SameMedium.withoutFault (h : w.SameMedium w') : w.withoutFault.SameMedium w'.withoutFault :=
  ⟨h.collection, h.disk, h.database, rfl⟩

theorem withoutFault_of_noFault (h : w.fault = none) : w.withoutFault = w := by
  obtain ⟨clock, disk, database, collection, memory, nonces, drawn, endpoint, posts, host, sent,
    counted, flight, fault⟩ := w
  cases h
  rfl

theorem Changed.sameMedium {file : FileCollection → FileCollection × Disk → Prop}
    {table : String → Database → Prop} (h : w.Changed file table w') {step : WriteStep}
    (hfault : w.fault = some step)
    (hfile : ∀ c changed, file c changed → changed = (c, w.disk)) : w.SameMedium w' := by
  cases h with
  | file hc h =>
    rw [hfile _ _ h]
    exact ⟨hc.symm, rfl, rfl, rfl⟩
  | table hc hnoFault =>
    rw [hfault] at hnoFault
    cases hnoFault

theorem sameMedium_perform {step : WriteStep} (h : w.fault = some step) (op : Op) :
    w.SameMedium (perform op w).2 := by
  cases op with
  | upsert key fields =>
    refine of_settle (P := w.SameMedium) (.refl w) fun w' hw => ?_
    refine (changed_of_upsert hw).sameMedium h fun c changed hc => ?_
    rw [h] at hc
    exact absurd hc FileCollection.store_ne_ok
  | delete key =>
    refine of_settle (P := w.SameMedium) (.refl w) fun w' hw => ?_
    refine (changed_of_delete hw).sameMedium h fun c changed hc => ?_
    rw [h] at hc
    exact FileCollection.delete_of_mishap hc
  | deleteIf key field expected =>
    refine of_settleWith (P := w.SameMedium) (.refl w) fun removed w' hw => ?_
    refine (changed_of_deleteIf hw).sameMedium h fun c changed hc => ?_
    rw [h] at hc
    exact FileCollection.deleteIf_of_mishap hc
  | _ => exact ⟨rfl, rfl, rfl, rfl⟩

theorem sameMedium_run {α : Type} {step : WriteStep} (p : Program α) (h : w.fault = some step) :
    w.SameMedium (p.run perform w).2 := by
  induction p generalizing w with
  | done a => exact .refl w
  | fail e => exact .refl w
  | step op next ih =>
    have hfirst := sameMedium_perform h op
    exact hfirst.trans (ih _ (hfirst.fault.trans h))

end World

namespace StoreKind

variable {b : StoreKind} {m : Dict StoredEntry} {w w' : World}

theorem image_withoutFault (h : b.image m w) : b.image m w.withoutFault := by
  cases b with
  | memory => exact h
  | documents =>
    have hholds : w.Holds (TokenDocument.holdings m) := h
    exact ⟨rfl, hholds.medium⟩
  | sealedDocuments ck =>
    obtain ⟨docs, hdocs, hseals⟩ := h
    exact ⟨docs, ⟨rfl, hdocs.medium⟩, hseals⟩

theorem contents_of_withoutFault (h : b.image m w.withoutFault) : b.Contents m w := by
  have hcontents := contents_of_image h
  cases b <;> exact hcontents

theorem image_of_sameMedium (h : b.image m w) (hw : w.SameMedium w') : ∃ m', b.image m' w' := by
  have hholds : ∀ docs, w.Holds docs → w'.Holds docs := by
    rintro docs ⟨hnoFault, hmedium⟩
    refine ⟨hw.fault.trans hnoFault, ?_⟩
    rw [hw.collection, hw.disk, hw.database]
    exact hmedium
  cases b with
  | memory => exact ⟨w'.memory, rfl⟩
  | documents => exact ⟨m, hholds _ h⟩
  | sealedDocuments ck =>
    obtain ⟨docs, hdocs, hseals⟩ := h
    exact ⟨m, docs, hholds docs hdocs, hseals⟩

/-! ### What a back end can come to -/

/-- The worlds that clients on a back end and others that use its store can come to, as the medium
takes writes or refuses them. -/
inductive Reached (b : StoreKind) : World → Prop
  | fresh {w : World} (h : b.Fresh w) : Reached b w
  | call {w : World} (h : Reached b w) (client : Client) (call : ClientCall) :
    Reached b ((client.on b).answer call w).2
  | use {w : World} (h : Reached b w) (call : StoreCall) : Reached b (b.store.answer call w).2
  | fault {w : World} (h : Reached b w) (step : Option WriteStep) :
    Reached b { w with fault := step }

theorem image_of_call (h : b.image m w) (client : Client) (call : ClientCall) :
    ∃ m', b.image m' ((client.on b).answer call w).2 := by
  obtain ⟨-, m', himage, -⟩ := client.answer_on ⟨m, h, h, .refl w⟩ call
  exact ⟨m', himage⟩

theorem image_of_use (h : b.image m w) (call : StoreCall) :
    ∃ m', b.image m' (b.store.answer call w).2 := by
  let held : World := { w with memory := m }
  have hheld : b.image held.memory w := h
  obtain ⟨-, himage, -⟩ := b.keeps.answer hheld rfl call
  exact ⟨_, himage⟩

theorem sameMedium_call {step : WriteStep} (h : w.fault = some step) (client : Client)
    (call : ClientCall) : w.SameMedium (client.answer call w).2 := by
  cases call with
  | login username password credentials =>
    exact World.sameMedium_run (client.login username password credentials) h
  | refresh key tokens credentials =>
    exact World.sameMedium_run (client.refresh key tokens credentials) h
  | accessToken key => exact World.sameMedium_run (client.accessToken key) h
  | apply key host headers => exact World.sameMedium_run (client.apply key host headers) h
  | clock now => exact ⟨rfl, rfl, rfl, rfl⟩

theorem sameMedium_use {step : WriteStep} (h : w.fault = some step) (store : TokenStore)
    (call : StoreCall) : w.SameMedium (store.answer call w).2 := by
  cases call with
  | save key tokens credentials expiresAt =>
    exact World.sameMedium_run (store.save key tokens credentials expiresAt) h
  | load key => exact World.sameMedium_run (store.load key) h
  | clock now => exact ⟨rfl, rfl, rfl, rfl⟩

/-- What holds after a step on a medium that takes writes, holds in any case once it does. -/
theorem image_of_either (himage : ∃ m, b.image m w.withoutFault)
    (hnoFault : ∀ m, b.image m w → ∃ m', b.image m' w')
    (hfault : ∀ step, w.fault = some step → w.SameMedium w') :
    ∃ m', b.image m' w'.withoutFault := by
  obtain ⟨m, himage⟩ := himage
  -- With a fault the medium stays as it is; without one the world is already `withoutFault`.
  cases hw : w.fault with
  | none =>
    rw [World.withoutFault_of_noFault hw] at himage
    obtain ⟨m', himage'⟩ := hnoFault m himage
    exact ⟨m', image_withoutFault himage'⟩
  | some step => exact image_of_sameMedium himage (hfault step hw).withoutFault

theorem Reached.image (h : b.Reached w) : ∃ m, b.image m w.withoutFault := by
  induction h with
  | fresh h => exact ⟨[], image_withoutFault h.image⟩
  | call _ client call ih =>
    exact image_of_either ih (fun _ himage => image_of_call himage client call)
      fun _ hfault => sameMedium_call hfault (client.on b) call
  | use _ call ih =>
    exact image_of_either ih (fun _ himage => image_of_use himage call)
      fun _ hfault => sameMedium_use hfault b.store call
  | fault _ step ih => exact ih

theorem Reached.contents (h : b.Reached w) : ∃ m, b.Contents m w := by
  obtain ⟨m, himage⟩ := h.image
  exact ⟨m, contents_of_withoutFault himage⟩

end StoreKind
end TokenKeeper
