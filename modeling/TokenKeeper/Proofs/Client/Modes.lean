import Mathlib.Data.List.Forall2
import TokenKeeper.Decorator
import TokenKeeper.Proofs.Client.Backends
import TokenKeeper.Proofs.Client.SingleFlight

/-!
# Refresh modes without company

When nothing else happens in between, one refresh at a time comes to the same as each on its own.
Under the lock the pair is loaded a second time. Since the clock has not moved and a load that
succeeds can be repeated, it is the same pair, still due, so that the same request follows. The
locks are all that the worlds differ in afterwards, and nothing is left of a lock but its number.
-/
namespace TokenKeeper

/-! ### Programs that have nothing to do with locks -/

namespace World

variable (w : World) (f : Flight)

theorem upsert_flight (key : String) (fields : Document) :
    World.upsert { w with flight := f } key fields =
      (w.upsert key fields).map fun v => { v with flight := f } := by
  obtain ⟨clock, disk, database, collection, memory, nonces, drawn, endpoint, posts, host, sent,
    counted, flight, fault⟩ := w
  cases collection with
  | file c =>
    change Except.bind _ _ = Except.map _ (Except.bind _ _)
    cases c.upsert disk fault key fields <;> rfl
  | table name =>
    cases fault with
    | none =>
      change Except.bind _ _ = Except.map _ (Except.bind _ _)
      cases database.upsert name key fields <;> rfl
    | some step => rfl

theorem delete_flight (key : String) :
    World.delete { w with flight := f } key =
      (w.delete key).map fun v => { v with flight := f } := by
  obtain ⟨clock, disk, database, collection, memory, nonces, drawn, endpoint, posts, host, sent,
    counted, flight, fault⟩ := w
  cases collection with
  | file c =>
    change Except.bind _ _ = Except.map _ (Except.bind _ _)
    cases c.delete disk fault key <;> rfl
  | table name =>
    cases fault with
    | none =>
      change Except.bind _ _ = Except.map _ (Except.bind _ _)
      cases database.delete name key <;> rfl
    | some step => rfl

theorem deleteIf_flight (key field : String) (expected : Json) :
    World.deleteIf { w with flight := f } key field expected =
      (w.deleteIf key field expected).map fun v => (v.1, { v.2 with flight := f }) := by
  obtain ⟨clock, disk, database, collection, memory, nonces, drawn, endpoint, posts, host, sent,
    counted, flight, fault⟩ := w
  cases collection with
  | file c =>
    change Except.bind _ _ = Except.map _ (Except.bind _ _)
    cases c.deleteIf disk fault key field expected <;> rfl
  | table name =>
    cases fault with
    | none =>
      change Except.bind _ _ = Except.map _ (Except.bind _ _)
      cases database.deleteIf name key field expected <;> rfl
    | some step => rfl

theorem perform_flight {op : Op} (h : op.isLocking = false) :
    World.perform op { w with flight := f } =
      ((World.perform op w).1, { (World.perform op w).2 with flight := f }) := by
  cases op with
  | upsert key fields =>
    simp only [World.perform, upsert_flight]
    cases w.upsert key fields <;> rfl
  | delete key =>
    simp only [World.perform, delete_flight]
    cases w.delete key <;> rfl
  | deleteIf key field expected =>
    simp only [World.perform, deleteIf_flight]
    cases w.deleteIf key field expected <;> rfl
  | checkout | acquire | release | retire | forget => contradiction
  | _ => rfl

end World

theorem Program.Unlocked.run_flight {α : Type} {p : Program α} (h : p.Unlocked) (w : World)
    (f : Flight) : p.run World.perform { w with flight := f } =
      ((p.run World.perform w).1, { (p.run World.perform w).2 with flight := f }) := by
  induction p generalizing w with
  | done a => rfl
  | fail e => rfl
  | step op next ih =>
    rw [Program.run, w.perform_flight f h.1]
    exact ih _ (h.2 _ trivial) _

/-! ### Locks that nobody shares -/

/-- There is no lock: none is listed, shared or held. -/
structure Flight.NoLocks (f : Flight) : Prop where
  registry : f.registry = []
  shares : f.shares = []
  held : f.held = []

namespace Flight

def passed (f : Flight) (key : String) : Flight :=
  let (slot, f) := f.checkout key
  (((f.acquire slot).release slot).retire slot).forget slot

theorem NoLocks.passed {f : Flight} (h : f.NoLocks) (key : String) : (f.passed key).NoLocks := by
  obtain ⟨registry, shares, held, next⟩ := f
  obtain ⟨rfl, rfl, rfl⟩ := h
  constructor <;> simp [Flight.passed, checkout, acquire, release, retire, forget, setShares,
    sharesOf, Dict.get?, Dict.insert, Dict.erase]

end Flight

/-! ### Loads that can be repeated -/

/-- A program that changes nothing unless it fails. -/
def Program.LeavesWorld {α : Type} (p : Program α) : Prop :=
  ∀ w a w', p.run World.perform w = (.ok a, w') → w' = w

namespace Program

variable {α β : Type}

theorem leavesWorld_done (a : α) : (done a).LeavesWorld := fun _ _ _ h => by cases h; rfl

theorem leavesWorld_fail (e : Failure) : (fail e : Program α).LeavesWorld :=
  fun _ _ _ h => by cases h

theorem leavesWorld_ofExcept (r : Except Failure α) : (ofExcept r).LeavesWorld := by
  cases r with
  | ok a => exact leavesWorld_done a
  | error e => exact leavesWorld_fail e

theorem leavesWorld_perform {op : Op} (h : ∀ w, (World.perform op w).2 = w) :
    (perform op).LeavesWorld := by
  intro w a w' hrun
  cases hrun
  exact h w

theorem LeavesWorld.bind {p : Program α} {f : α → Program β} (hp : p.LeavesWorld)
    (hf : ∀ a, (f a).LeavesWorld) : (p.bind f).LeavesWorld := by
  intro w b w' hrun
  rw [run_bind] at hrun
  cases hfirst : p.run World.perform w with
  | mk r v =>
    rw [hfirst] at hrun
    cases r with
    | ok a => exact (hf a v b w' hrun).trans (hp w a v hfirst)
    | error e => cases hrun

theorem leavesWorld_of_fails {p : Program α} {f : α → Program β}
    (h : ∀ a w, ∃ e w', (f a).run World.perform w = (.error e, w')) : (p.bind f).LeavesWorld := by
  intro w b w' hrun
  rw [run_bind] at hrun
  cases hfirst : p.run World.perform w with
  | mk r v =>
    rw [hfirst] at hrun
    cases r with
    | ok a =>
      obtain ⟨e, v', hfail⟩ := h a v
      change (f a).run World.perform v = _ at hrun
      rw [hfail] at hrun
      cases hrun
    | error e => cases hrun

end Program

/-- A store that takes no part in the locks and of which a load that succeeds can be repeated: with
no change of the clock, the second one gives the same entry and changes nothing. -/
structure TokenStore.Repeatable (store : TokenStore) : Prop where
  storeOnly : store.StoreOnly
  again : ∀ {key : String} {w w' : World} {e : StoredEntry},
    (store.load key).run World.perform w = (.ok e, w') →
      (store.load key).run World.perform w' = (.ok e, w')

namespace TokenStore

theorem Repeatable.of_leavesWorld {store : TokenStore} (honly : store.StoreOnly)
    (h : ∀ key, (store.load key).LeavesWorld) : store.Repeatable where
  storeOnly := honly
  again {key w w' e} hload := by
    have hsame := h key w e w' hload
    rw [hsame] at hload ⊢
    exact hload

theorem memory_repeatable : memory.Repeatable := by
  refine .of_leavesWorld memory_storeOnly fun key w e w' h => ?_
  change (Program.ofExcept (Memory.load w.memory w.clock key).1).run World.perform
    { w with memory := (Memory.load w.memory w.clock key).2 } = _ at h
  unfold Memory.load at h
  split at h
  · cases h
  · split at h <;> cases h
    rfl

theorem lasting_repeatable : lasting.Repeatable := by
  refine .of_leavesWorld lasting_storeOnly fun key => ?_
  refine (Program.leavesWorld_perform fun _ => rfl).bind fun answer => ?_
  split
  · exact Program.leavesWorld_done _
  · exact Program.leavesWorld_fail _

theorem readOnly_repeatable : readOnly.Repeatable :=
  .of_leavesWorld readOnly_storeOnly fun _ => Program.leavesWorld_fail _

theorem findStored_leavesWorld (key : String) : (findStored key).LeavesWorld := by
  refine (Program.leavesWorld_perform fun _ => rfl).bind fun answer => ?_
  refine (Program.leavesWorld_ofExcept answer).bind fun found => ?_
  split
  · exact Program.leavesWorld_done _
  · exact Program.leavesWorld_fail _

theorem purge_leavesWorld {α : Type} (key : String) (doc : Document) :
    (purge (α := α) key doc).LeavesWorld := by
  unfold purge
  split
  · refine Program.leavesWorld_of_fails fun answer w => ?_
    cases answer with
    | ok removed => exact ⟨_, w, rfl⟩
    | error e => exact ⟨e, w, rfl⟩
  · exact Program.leavesWorld_fail _

theorem documents_repeatable : documents.Repeatable := by
  refine .of_leavesWorld documents_takesAtMostThree.onDocuments.storeOnly fun key => ?_
  refine (findStored_leavesWorld key).bind fun doc => ?_
  split
  · exact Program.leavesWorld_fail _
  · refine (Program.leavesWorld_perform fun _ => rfl).bind fun now => ?_
    split
    · exact purge_leavesWorld key doc
    · exact Program.leavesWorld_done _

theorem sealedDocuments_repeatable (ck : CipherKey) : (sealedDocuments ck).Repeatable := by
  refine .of_leavesWorld (sealedDocuments_takesAtMostThree ck).onDocuments.storeOnly fun key => ?_
  refine (findStored_leavesWorld key).bind fun doc => ?_
  split
  · exact Program.leavesWorld_fail _
  · refine (Program.leavesWorld_perform fun _ => rfl).bind fun now => ?_
    split
    · exact purge_leavesWorld key doc
    · exact (Program.leavesWorld_ofExcept _).bind fun _ => Program.leavesWorld_done _

end TokenStore

theorem StoreKind.repeatable (b : StoreKind) : b.store.Repeatable := by
  cases b with
  | memory => exact TokenStore.memory_repeatable
  | documents => exact TokenStore.documents_repeatable
  | sealedDocuments ck => exact TokenStore.sealedDocuments_repeatable ck

/-! ### The operations of a client in both modes -/

/-- Worlds without locks that are the same but for how many there have been. -/
structure World.SameButFlight (w w' : World) : Prop where
  same : w = { w' with flight := w.flight }
  noLocks : w.flight.NoLocks
  noLocks' : w'.flight.NoLocks

theorem Program.Unlocked.related {α : Type} {p : Program α} (h : p.Unlocked) :
    Related World.SameButFlight Eq p p := by
  intro w w' ht
  have hflight : (p.run World.perform w').2.flight = w'.flight :=
    h.run (fun _ v hop hv => ⟨trivial, (World.flight_perform hop v).trans hv⟩) rfl
  rw [ht.same, h.run_flight w' w.flight]
  exact ⟨sameEnd_self _, ⟨rfl, ht.noLocks, hflight ▸ ht.noLocks'⟩⟩

namespace Client

theorem run_withSlot_unlocked {α : Type} {body : Program α} (h : body.Unlocked) (key : String)
    (w : World) : (withSlot key body).run World.perform w =
      ((body.run World.perform w).1,
        { (body.run World.perform w).2 with flight := w.flight.passed key }) := by
  let slot := (w.flight.checkout key).1
  let taken := (w.flight.checkout key).2.acquire slot
  change (body.attempt.bind _).run World.perform { w with flight := taken } = _
  rw [Program.run_bind, Program.run_attempt, h.run_flight w taken]
  cases (body.run World.perform w).1 <;> rfl

variable (client : Client)

def inMode (mode : RefreshMode) : Client := { client with mode := mode }

def renew (key : String) (entry : StoredEntry) : Program String :=
  (client.refreshEntry key entry).bind fun tokens => usable key tokens.accessToken

def judge (key : String) (entry : StoredEntry) (renewal : Program String) : Program String := do
  if ← client.isDue entry then renewal else usable key entry.tokens.accessToken

theorem run_judge (key : String) (e : StoredEntry) (renewal : Program String) (w : World) :
    (client.judge key e renewal).run World.perform w =
      if client.needsRefresh w.clock e.expiresAt then renewal.run World.perform w
      else (usable key e.tokens.accessToken).run World.perform w := by
  change Program.run World.perform (if client.needsRefresh w.clock e.expiresAt then _ else _) w = _
  split <;> rfl

theorem accessToken_singleFlight (key : String) :
    (client.inMode .singleFlight).accessToken key = (client.loadEntry key).bind fun entry =>
      client.judge key entry (withSlot key (client.refreshAgain key)) := rfl

theorem accessToken_independent (key : String) :
    (client.inMode .independent).accessToken key = (client.loadEntry key).bind fun entry =>
      client.judge key entry (client.renew key entry) := rfl

theorem refreshAgain_eq (key : String) :
    client.refreshAgain key = (client.loadEntry key).bind fun entry =>
      client.judge key entry (client.renew key entry) := rfl

theorem usable_unlocked (key accessToken : String) : (usable key accessToken).Unlocked :=
  allSteps_usable key accessToken

variable {client} (hstore : ∀ store ∈ client.store, store.Repeatable)

include hstore

theorem storeOnly_store : ∀ store ∈ client.store, store.StoreOnly :=
  fun store hsome => (hstore store hsome).storeOnly

theorem loadEntry_again {key : String} {w w' : World} {e : StoredEntry}
    (h : (client.loadEntry key).run World.perform w = (.ok e, w')) :
    (client.loadEntry key).run World.perform w' = (.ok e, w') := by
  unfold loadEntry at h ⊢
  split at h
  · next store hsome => exact (hstore store hsome).again h
  · cases h

theorem renew_unlocked (key : String) (e : StoredEntry) : (client.renew key e).Unlocked :=
  allSteps_refreshed (fun _ => unlocked_of_granting)
    (fun store hsome tokens expiresAt =>
      ((hstore store hsome).storeOnly.save key tokens none expiresAt).unlocked) e

theorem run_refreshAgain_due {key : String} {e : StoredEntry} {w w' : World}
    (hload : (client.loadEntry key).run World.perform w = (.ok e, w'))
    (hdue : client.needsRefresh w'.clock e.expiresAt = true) :
    (client.refreshAgain key).run World.perform w' = (client.renew key e).run World.perform w' := by
  rw [refreshAgain_eq, Program.run_bind, loadEntry_again hstore hload]
  change (client.judge key e _).run World.perform w' = _
  rw [run_judge, hdue, if_pos rfl]

theorem run_due_locked {key : String} {e : StoredEntry} {w w' : World}
    (hload : (client.loadEntry key).run World.perform w = (.ok e, w'))
    (hdue : client.needsRefresh w'.clock e.expiresAt = true) :
    (withSlot key (client.refreshAgain key)).run World.perform w' =
      (((client.renew key e).run World.perform w').1,
        { ((client.renew key e).run World.perform w').2 with
          flight := w'.flight.passed key }) := by
  rw [run_withSlot_unlocked (unlocked_refreshAgain (storeOnly_store hstore) key),
    run_refreshAgain_due hstore hload hdue]

theorem related_accessToken_modes (key : String) :
    Related World.SameButFlight Eq ((client.inMode .singleFlight).accessToken key)
      ((client.inMode .independent).accessToken key) := by
  rw [accessToken_singleFlight, accessToken_independent]
  refine Related.bind_run (storeOnly_loadEntry (storeOnly_store hstore) key).unlocked.related ?_
  rintro e _ w - v v' rfl hload - hbut
  have hclock : v'.clock = v.clock := by rw [hbut.same]
  rw [run_judge, run_judge, hclock]
  cases hdue : client.needsRefresh v.clock e.expiresAt with
  | true =>
    obtain ⟨hend, hafter⟩ := (renew_unlocked hstore key e).related v v' hbut
    simp only [if_true, run_due_locked hstore hload hdue]
    exact ⟨hend, by rw [hafter.same], hbut.noLocks.passed key, hafter.noLocks'⟩
  | false => exact (usable_unlocked key e.tokens.accessToken).related v v' hbut

theorem related_apply_modes (key : String) (host : Option String) (headers : Headers) :
    Related World.SameButFlight Eq ((client.inMode .singleFlight).apply key host headers)
      ((client.inMode .independent).apply key host headers) := by
  have hprotects :
      (client.inMode .singleFlight).protects host = (client.inMode .independent).protects host :=
    rfl
  unfold apply
  rw [hprotects]
  split
  · refine Related.bind (related_accessToken_modes hstore key).attempt ?_
    intro r s hend
    cases hend.eq
    cases r with
    | error e => exact Related.done rfl
    | ok token =>
      simp only
      split <;> exact Related.done rfl
  · exact Related.done rfl

theorem login_unlocked (username password : String) (credentials : Credentials) :
    (client.login username password credentials).Unlocked :=
  allSteps_login (fun _ => unlocked_of_granting) fun store hsome tokens expiresAt =>
    ((hstore store hsome).storeOnly.save _ tokens _ expiresAt).unlocked

theorem refresh_unlocked (key : String) (tokens : Tokens) (credentials : Credentials) :
    (client.refresh key tokens credentials).Unlocked := by
  refine Program.allSteps_bind (allSteps_request (fun _ => unlocked_of_granting) _ _)
    fun granted => ?_
  exact allSteps_persist (fun _ => unlocked_of_granting) _ fun store hsome expiresAt =>
    ((hstore store hsome).storeOnly.save key granted none expiresAt).unlocked

end Client

/-! ### Sessions -/

inductive SoloCall
  | login (username password : String) (credentials : Credentials)
  | refresh (key : String) (tokens : Tokens) (credentials : Credentials)
  | accessToken (key : String)
  | apply (key : String) (host : Option String) (headers : Headers)
  | clock (now : Instant)

inductive SoloAnswer
  | granted (result : Except Failure Granted)
  | token (result : Except Failure String)
  | applied (result : Except Failure (Except Failure Unit × Headers))
  | set

namespace Client

def soloAnswer (client : Client) : SoloCall → World → SoloAnswer × World
  | .login username password credentials, w =>
    let (result, w) := (client.login username password credentials).run World.perform w
    (.granted result, w)
  | .refresh key tokens credentials, w =>
    let (result, w) := (client.refresh key tokens credentials).run World.perform w
    (.granted result, w)
  | .accessToken key, w =>
    let (result, w) := (client.accessToken key).run World.perform w
    (.token result, w)
  | .apply key host headers, w =>
    let (result, w) := (client.apply key host headers).run World.perform w
    (.applied result, w)
  | .clock now, w => (.set, { w with clock := now })

/-- A session in which nothing is concurrent: each answer, with the world after it. -/
def soloRun (client : Client) : List SoloCall → World → List (SoloAnswer × World)
  | [], _ => []
  | call :: rest, w => client.soloAnswer call w :: client.soloRun rest (client.soloAnswer call w).2

variable {client : Client} (hstore : ∀ store ∈ client.store, store.Repeatable)

include hstore

theorem soloAnswer_modes {w w' : World} (h : w.SameButFlight w') (call : SoloCall) :
    ((client.inMode .singleFlight).soloAnswer call w).1 =
        ((client.inMode .independent).soloAnswer call w').1 ∧
      ((client.inMode .singleFlight).soloAnswer call w).2.SameButFlight
        ((client.inMode .independent).soloAnswer call w').2 := by
  cases call with
  | login username password credentials =>
    obtain ⟨hend, hafter⟩ := (login_unlocked hstore username password credentials).related w w' h
    exact ⟨congrArg SoloAnswer.granted hend.eq, hafter⟩
  | refresh key tokens credentials =>
    obtain ⟨hend, hafter⟩ := (refresh_unlocked hstore key tokens credentials).related w w' h
    exact ⟨congrArg SoloAnswer.granted hend.eq, hafter⟩
  | accessToken key =>
    obtain ⟨hend, hafter⟩ := related_accessToken_modes hstore key w w' h
    exact ⟨congrArg SoloAnswer.token hend.eq, hafter⟩
  | apply key host headers =>
    obtain ⟨hend, hafter⟩ := related_apply_modes hstore key host headers w w' h
    exact ⟨congrArg SoloAnswer.applied hend.eq, hafter⟩
  | clock now =>
    refine ⟨rfl, ?_, h.noLocks, h.noLocks'⟩
    have hsame := h.same
    simp only [soloAnswer]
    rw [hsame]

omit hstore

structure SameTurn (locked free : SoloAnswer × World) : Prop where
  answer : locked.1 = free.1
  world : locked.2 = { free.2 with flight := locked.2.flight }
  registry : locked.2.flight.registry = []

include hstore in
theorem soloRun_of_sameEntries {w w' : World} (h : w.SameButFlight w') (calls : List SoloCall) :
    List.Forall₂ SameTurn ((client.inMode .singleFlight).soloRun calls w)
      ((client.inMode .independent).soloRun calls w') := by
  induction calls generalizing w w' with
  | nil => exact .nil
  | cons call rest ih =>
    obtain ⟨hanswer, hafter⟩ := soloAnswer_modes hstore h call
    exact .cons ⟨hanswer, hafter.same, hafter.noLocks.registry⟩ (ih hafter)

/-- Unless something is concurrent, both modes do the same: over any store of which loads that
succeed can be repeated, as those at hand can, they give the same answers in every session, send the
same requests, count the same and leave the same behind. One refresh at a time leaves no lock. -/
theorem soloRun_modes : ((∀ b : StoreKind, b.store.Repeatable) ∧
      TokenStore.lasting.Repeatable ∧ TokenStore.readOnly.Repeatable) ∧
    ∀ client : Client, (∀ store ∈ client.store, store.Repeatable) →
      ∀ w : World, w.flight.NoLocks → ∀ calls,
        List.Forall₂ SameTurn ((client.inMode .singleFlight).soloRun calls w)
          ((client.inMode .independent).soloRun calls w) := by
  refine ⟨⟨StoreKind.repeatable, TokenStore.lasting_repeatable, TokenStore.readOnly_repeatable⟩, ?_⟩
  exact fun client hstore w hnoLocks calls => soloRun_of_sameEntries hstore
    ⟨rfl, hnoLocks, hnoLocks⟩ calls

end Client

namespace Expiring

def refusing : World := { world with endpoint := .scripted [.answer 400 none] }

def tries : List SoloCall := [.accessToken "u1", .accessToken "u1"]

theorem modes_agree_when_refused :
    List.Forall₂ Client.SameTurn ((client.inMode .singleFlight).soloRun tries refusing)
        ((client.inMode .independent).soloRun tries refusing) ∧
      ((client.inMode .singleFlight).soloRun tries refusing).map
        (fun turn => (turn.2.posts.length, turn.2.flight.next)) = [(1, 1), (2, 2)] := by
  have hstore : ∀ store ∈ client.store, store.Repeatable := by
    rintro _ ⟨⟩
    exact TokenStore.memory_repeatable
  exact ⟨Client.soloRun_modes.2 client hstore refusing ⟨rfl, rfl, rfl⟩ tries, rfl⟩

end Expiring
end TokenKeeper
