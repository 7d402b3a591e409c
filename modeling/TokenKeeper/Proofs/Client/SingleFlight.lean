import TokenKeeper.Proofs.Client.Programs
import TokenKeeper.Proofs.Flight
import TokenKeeper.Proofs.Store.Programs
import TokenKeeper.Proofs.Store.Steps

/-!
# One refresh at a time for each key

A client that refreshes one at a time asks for a new pair only between the acquisition and the
release of the lock of the key. Its store takes no part in the locks. So, however the tasks take
turns, fail or are stopped, what each owes follows from the steps that it took with the locks alone,
and the locks stay guarded.
-/
namespace TokenKeeper

/-! ### Steps that leave the locks alone -/

def Op.OfStore (op : Op) : Prop := op.isOuter = false ∨ op = .now

theorem Op.OfStore.unlocked {op : Op} (h : op.OfStore) : op.isLocking = false := by
  rcases h with h | rfl
  · cases op <;> first | contradiction | rfl
  · rfl

theorem Op.OnDocuments.ofStore {op : Op} (h : op.OnDocuments) : op.OfStore := by
  cases h with
  | now => exact Or.inr rfl
  | _ => exact Or.inl rfl

theorem World.flight_perform {op : Op} (h : op.isLocking = false) (w : World) :
    (World.perform op w).2.flight = w.flight := by
  cases houter : op.isOuter with
  | false => exact (World.sameOutside_perform houter w).flight
  | true => cases op <;> first | contradiction | rfl

theorem Task.owe_unlocked {op : Op} (h : op.isLocking = false) (owed : List Op) (a : op.Answer) :
    Task.owe owed op a = owed := by
  cases op <;> first | contradiction | rfl

/-! ### Steps with locks that fit what is owed -/

/-- Whether a task of a key that owes this may take a step with locks. -/
def Op.Fits (key : String) (owed : List Op) : Op → Prop
  | .checkout k => k = key ∧ owed = []
  | .acquire s => s.key = key ∧ owed = [.retire s, .forget s]
  | .release s => s.key = key ∧ owed = [.release s, .retire s, .forget s]
  | .retire s => s.key = key ∧ owed = [.retire s, .forget s]
  | .forget s => s.key = key ∧ owed = [.forget s]
  | _ => True

theorem Op.fits_unlocked {op : Op} (h : op.isLocking = false) (key : String) (owed : List Op) :
    op.Fits key owed := by
  cases op <;> first | contradiction | exact trivial

def Op.Fitting : (op : Op) → op.Answer → Prop
  | .checkout key, slot => slot.key = key
  | _, _ => True

section

variable {keys : Nat → String} {owes : List (List Op)} {i : Nat} {op : Op} {owed : List Op}
  {w : World}

theorem Guarded.perform (h : Guarded keys owes w.flight) (hi : owes[i]? = some owed)
    (he : World.enabled op w = true) (hfits : op.Fits (keys i) owed) :
    op.Fitting (World.perform op w).1 ∧
      Guarded keys (owes.set i (Task.owe owed op (World.perform op w).1))
        (World.perform op w).2.flight := by
  cases hop : op.isLocking with
  | false =>
    obtain ⟨hlength, hget⟩ := List.getElem?_eq_some_iff.mp hi
    rw [Task.owe_unlocked hop, World.flight_perform hop, ← hget, List.set_getElem_self hlength]
    refine ⟨?_, h⟩
    cases op <;> first | contradiction | exact trivial
  | true =>
    cases op with
    | checkout key =>
      obtain ⟨rfl, rfl⟩ := hfits
      exact h.checkout hi
    | acquire s =>
      obtain ⟨hkey, rfl⟩ := hfits
      exact ⟨trivial, h.acquire hi hkey he⟩
    | release s =>
      obtain ⟨hkey, rfl⟩ := hfits
      exact ⟨trivial, h.release hi hkey⟩
    | retire s =>
      obtain ⟨hkey, rfl⟩ := hfits
      exact ⟨trivial, h.retire hi hkey⟩
    | forget s =>
      obtain ⟨hkey, rfl⟩ := hfits
      exact ⟨trivial, h.forget hi hkey⟩
    | _ => contradiction

theorem Guarded.fits_due {f : Flight} (h : Guarded keys owes f)
    (hi : owes[i]? = some (op :: owed)) : op.Fits (keys i) (op :: owed) ∧
      (∀ a, Task.owe (op :: owed) op a = owed) ∧ (∀ w, World.enabled op w = true) := by
  obtain ⟨s, hkey, howes⟩ := h.dues hi
  cases howes with
  | share => exact ⟨⟨hkey, rfl⟩, fun _ => rfl, fun _ => rfl⟩
  | slot => exact ⟨⟨hkey, rfl⟩, fun _ => rfl, fun _ => rfl⟩
  | lock => exact ⟨⟨hkey, rfl⟩, fun _ => rfl, fun _ => rfl⟩

end

/-! ### Between acquisition and release -/

def Op.holdsAfter (held : Bool) : Op → Bool
  | .acquire _ => true
  | .release _ => false
  | _ => held

/-- Whether a task has acquired a lock and not released it yet, going by the history. -/
def inside (i : Nat) (past : List Event) : Bool :=
  past.foldl (fun held e => if e.task = i then e.op.holdsAfter held else held) false

theorem inside_concat (i : Nat) (past : List Event) (e : Event) : inside i (past ++ [e]) =
    if e.task = i then e.op.holdsAfter (inside i past) else inside i past := by
  rw [inside, List.foldl_append]
  rfl

def owesRelease (owed : List Op) : Bool :=
  owed.any fun
    | .release _ => true
    | _ => false

theorem exists_release {owed : List Op} (h : owesRelease owed = true) : ∃ s, .release s ∈ owed := by
  obtain ⟨op, hop, hrelease⟩ := List.any_eq_true.mp h
  cases op with
  | release s => exact ⟨s, hop⟩
  | _ => contradiction

theorem Op.Fits.owesRelease {key : String} {owed : List Op} {op : Op} (h : op.Fits key owed)
    (a : op.Answer) : owesRelease (Task.owe owed op a) = op.holdsAfter (owesRelease owed) := by
  cases op with
  | checkout k =>
    obtain ⟨-, rfl⟩ := h
    rfl
  | acquire s => rfl
  | release s =>
    obtain ⟨-, rfl⟩ := h
    rfl
  | retire s =>
    obtain ⟨-, rfl⟩ := h
    rfl
  | forget s =>
    obtain ⟨-, rfl⟩ := h
    rfl
  | _ => rfl

theorem exists_owed_release {owes : List (List Op)} {i : Nat}
    (h : (owes[i]?).any owesRelease = true) :
    ∃ owed slot, owes[i]? = some owed ∧ .release slot ∈ owed := by
  rw [Option.any_eq_true_iff_get] at h
  obtain ⟨hsome, hrelease⟩ := h
  obtain ⟨slot, hslot⟩ := exists_release hrelease
  exact ⟨_, slot, (Option.some_get hsome).symm, hslot⟩

/-- The locks are guarded, and who is inside by the history owes a release. -/
structure Locked (keys : Nat → String) {Phase : Type} (s : PoolState Phase) : Prop where
  guarded : Guarded keys s.owes s.world.flight
  inside : ∀ i, inside i s.past = (s.owes[i]?).any owesRelease

namespace Locked

variable {Phase : Type} {keys : Nat → String} {s : PoolState Phase} {i : Nat} {op : Op}
  {owed : List Op}

theorem step (h : Locked keys s) (hi : s.owes[i]? = some owed)
    (he : World.enabled op s.world = true) (hfits : op.Fits (keys i) owed) (next : Phase) :
    op.Fitting (World.perform op s.world).1 ∧
      Locked keys (s.step i op (Task.owe owed op (World.perform op s.world).1) next) := by
  obtain ⟨hfitting, hguarded⟩ := h.guarded.perform hi he hfits
  refine ⟨hfitting, hguarded, fun j => ?_⟩
  simp only [PoolState.step]
  rw [inside_concat, h.inside j]
  by_cases hj : i = j
  · subst hj
    rw [if_pos rfl, List.getElem?_set_self (List.getElem?_eq_some_iff.mp hi).1, hi, Option.any_some,
      Option.any_some, hfits.owesRelease]
  · rw [if_neg hj, List.getElem?_set_ne hj]

theorem due (h : Locked keys s) (hi : s.owes[i]? = some (op :: owed)) (next : Phase) :
    Locked keys (s.step i op owed next) := by
  obtain ⟨hfits, howe, henabled⟩ := h.guarded.fits_due hi
  rw [← howe (World.perform op s.world).1]
  exact (h.step hi (henabled _) hfits next).2

theorem exclusive (h : Locked keys s) {j : Nat} (hij : i ≠ j)
    (hi : TokenKeeper.inside i s.past = true) (hj : TokenKeeper.inside j s.past = true) :
    keys i ≠ keys j := by
  rw [h.inside] at hi hj
  obtain ⟨a, slot, ha, hslot⟩ := exists_owed_release hi
  obtain ⟨b, slot', hb, hslot'⟩ := exists_owed_release hj
  exact h.guarded.exclusive hij ha hb hslot hslot'

theorem start {n : Nat} {phase : Nat → Phase} {w : World} (hw : w.flight = .empty) :
    Locked keys ⟨List.replicate n [], w, phase, []⟩ := by
  refine ⟨?_, fun i => ?_⟩
  · rw [hw]
    exact .start
  · rw [List.getElem?_replicate]
    split <;> rfl

end Locked

/-! ### Programs without locks -/

namespace Program

variable {α β : Type}

/-- A program that takes steps of stores only. -/
def StoreOnly (p : Program α) : Prop := p.AllSteps Op.OfStore fun _ _ => True

def Unlocked (p : Program α) : Prop := p.AllSteps (fun op => op.isLocking = false) fun _ _ => True

theorem StoreOnly.unlocked {p : Program α} (h : p.StoreOnly) : p.Unlocked :=
  h.mono fun _ => Op.OfStore.unlocked

theorem AllSteps.obeys {Phase : Type} {d : Discipline Phase}
    {ends : List Op → Phase → Except Failure α → Prop} {owed : List Op} {phase : Phase}
    {allowed : Op → Prop} {p : Program α} (hp : p.AllSteps allowed fun _ _ => True)
    (h : ∀ op, allowed op → d.allows owed phase op ∧
      ∀ a, Task.owe owed op a = owed ∧ d.next phase op a = phase)
    (hends : ∀ r, ends owed phase r) : p.Obeys d ends owed phase := by
  induction p with
  | done a => exact hends _
  | fail e => exact hends _
  | step op next ih =>
    obtain ⟨hallows, hstay⟩ := h op hp.1
    refine ⟨hallows, fun a _ => ?_⟩
    rw [(hstay a).1, (hstay a).2]
    exact ih a (hp.2 a trivial)

end Program

structure TokenStore.StoreOnly (store : TokenStore) : Prop where
  load : ∀ key, (store.load key).StoreOnly
  save : ∀ key tokens credentials expiresAt, (store.save key tokens credentials expiresAt).StoreOnly

namespace TokenStore

theorem memory_storeOnly : memory.StoreOnly where
  load _ := Program.allSteps_bind (Program.allSteps_perform (.inl rfl)) fun _ =>
    Program.allSteps_ofExcept _
  save _ _ _ _ := Program.allSteps_perform (.inl rfl)

theorem lasting_storeOnly : lasting.StoreOnly where
  load _ := by
    refine Program.allSteps_bind (Program.allSteps_perform (.inl rfl)) fun entry => ?_
    split <;> exact trivial
  save _ _ _ _ := Program.allSteps_perform (.inl rfl)

theorem readOnly_storeOnly : readOnly.StoreOnly where
  load _ := trivial
  save _ _ _ _ := trivial

theorem OnDocuments.storeOnly {store : TokenStore} (h : store.OnDocuments) : store.StoreOnly where
  load key := (h.load key).mono fun _ => Op.OnDocuments.ofStore
  save key tokens credentials expiresAt :=
    (h.save key tokens credentials expiresAt).mono fun _ => Op.OnDocuments.ofStore

end TokenStore

/-! ### Tasks of a client -/

inductive ClientTask
  | accessToken (key : String)
  | login (username password : String) (credentials : Credentials)

namespace ClientTask

def key : ClientTask → String
  | .accessToken key => key
  | .login _ _ credentials => credentials.callerKey

def program (client : Client) : ClientTask → Program String
  | .accessToken key => client.accessToken key
  | .login username password credentials =>
    (client.login username password credentials).bind fun granted =>
      .done granted.tokens.accessToken

/-- An access token is asked for inside only. -/
def PostsOwing (owed : List Op) : ClientTask → Prop
  | .accessToken _ => owesRelease owed = true
  | .login .. => True

def rules (v : ClientTask) : Discipline Unit where
  allows owed _ op := op.Fits v.key owed ∧ ∀ form, op = .post form → v.PostsOwing owed
  expects _ := Op.Fitting
  next _ _ _ := ()
  gone := ()

end ClientTask

def callAt (calls : List ClientTask) (i : Nat) : ClientTask :=
  calls.getD i (.login "" "" ⟨"", "", ""⟩)

theorem callAt_eq {calls : List ClientTask} {i : Nat} {v : ClientTask} (h : calls[i]? = some v) :
    callAt calls i = v := by
  rw [callAt, List.getD_eq_getElem?_getD, h]
  rfl

theorem callAt_accessToken {calls : List ClientTask} {i : Nat} {key : String} :
    callAt calls i = .accessToken key ↔ calls[i]? = some (.accessToken key) := by
  refine ⟨fun h => ?_, callAt_eq⟩
  cases hv : calls[i]? with
  | none =>
    rw [callAt, List.getD_eq_getElem?_getD, hv] at h
    cases h
  | some v => rw [← h, callAt_eq hv]

def Client.pool (client : Client) (calls : List ClientTask) (w : World) : TaskPool String :=
  ⟨calls.map fun v => .start (v.program client), w⟩

def TaskPool.Asks {α : Type} (c : TaskPool α) (i : Nat) : Prop :=
  ∃ form, (c.tasks[i]?).bind Task.next? = some (.post form)

namespace Client

variable {client : Client}

theorem unlocked_of_granting {op : Op} (h : op.isGranting = true) : op.isLocking = false := by
  cases op <;> first | contradiction | rfl

theorem obeys_withSlot {key : String} {body : Program String} (hbody : body.Unlocked) :
    (withSlot key body).Obeys (ClientTask.accessToken key).rules (fun _ _ _ => True) [] () := by
  have hnopost : ∀ {op : Op} {owed : List Op}, (∀ form, op ≠ .post form) →
      ∀ form, op = .post form → (ClientTask.accessToken key).PostsOwing owed :=
    fun hop form he => absurd he (hop form)
  refine ⟨⟨⟨rfl, rfl⟩, hnopost nofun⟩, fun slot hslot => ⟨⟨⟨hslot, rfl⟩, hnopost nofun⟩, ?_⟩⟩
  intro _ _
  have hinside : body.attempt.Obeys (ClientTask.accessToken key).rules
      (fun owed _ _ => owed = [.release slot, .retire slot, .forget slot])
      [.release slot, .retire slot, .forget slot] () := by
    refine (Program.allSteps_attempt hbody).obeys (fun op hop => ?_) fun _ => rfl
    exact ⟨⟨Op.fits_unlocked hop _ _, fun _ _ => rfl⟩, fun a => ⟨Task.owe_unlocked hop _ a, rfl⟩⟩
  refine hinside.bind (fun owed _ result howed => ?_) fun _ _ _ _ => trivial
  cases howed
  refine ⟨⟨⟨hslot, rfl⟩, hnopost nofun⟩, fun _ _ => ⟨⟨⟨hslot, rfl⟩, hnopost nofun⟩, fun _ _ =>
    ⟨⟨⟨hslot, rfl⟩, hnopost nofun⟩, fun _ _ => ?_⟩⟩⟩
  exact Program.obeys_ofExcept trivial

section

variable (hstore : ∀ store ∈ client.store, store.StoreOnly)

include hstore

theorem storeOnly_loadEntry (key : String) : (client.loadEntry key).StoreOnly :=
  allSteps_loadEntry fun store hsome => (hstore store hsome).load key

theorem unlocked_refreshAgain (key : String) : (client.refreshAgain key).Unlocked :=
  allSteps_refreshAgain (fun _ => unlocked_of_granting)
    (fun store hsome tokens expiresAt =>
      ((hstore store hsome).save key tokens none expiresAt).unlocked)
    fun store hsome => ((hstore store hsome).load key).unlocked

theorem unlocked_login (username password : String) (credentials : Credentials) :
    ((ClientTask.login username password credentials).program client).Unlocked := by
  refine Program.allSteps_bind (allSteps_login (fun _ => unlocked_of_granting) ?_) fun _ => trivial
  exact fun store hsome tokens expiresAt =>
    ((hstore store hsome).save _ tokens _ expiresAt).unlocked

theorem obeys_login (username password : String) (credentials : Credentials) :
    Program.Obeys (ClientTask.login username password credentials).rules (fun _ _ _ => True)
      ((ClientTask.login username password credentials).program client) [] () := by
  have hunlocked := unlocked_login hstore username password credentials
  refine Program.AllSteps.obeys hunlocked
    (fun op hop => ⟨⟨Op.fits_unlocked hop _ _, fun _ _ => trivial⟩, ?_⟩) fun _ => trivial
  exact fun a => ⟨Task.owe_unlocked hop [] a, rfl⟩

theorem obeys_accessToken (hmode : client.mode = .singleFlight) (key : String) :
    (client.accessToken key).Obeys (ClientTask.accessToken key).rules (fun _ _ _ => True) []
      () := by
  have honly : ∀ {α : Type} {p : Program α}, p.StoreOnly →
      p.Obeys (ClientTask.accessToken key).rules (fun owed _ _ => owed = []) [] () := by
    intro α p hp
    refine Program.AllSteps.obeys hp (fun op hop => ⟨⟨Op.fits_unlocked hop.unlocked _ _, ?_⟩, ?_⟩)
      fun _ => rfl
    · rintro form rfl
      rcases hop with hop | hop <;> cases hop
    · exact fun a => ⟨Task.owe_unlocked hop.unlocked [] a, rfl⟩
  refine (honly (storeOnly_loadEntry hstore key)).bind (fun owed _ entry howed => ?_)
    fun _ _ _ _ => trivial
  cases howed
  have hdue : (client.isDue entry).StoreOnly :=
    Program.allSteps_bind (Program.allSteps_perform (.inr rfl)) fun _ => trivial
  refine (honly hdue).bind (fun owed _ due howed => ?_) fun _ _ _ _ => trivial
  cases howed
  rw [hmode]
  split
  · exact obeys_withSlot (unlocked_refreshAgain hstore key)
  · unfold usable
    split <;> exact trivial

end

/-! ### All moves of all tasks -/

theorem upholds_locked (calls : List ClientTask) : Upholds (fun i => (callAt calls i).rules)
    (Locked fun i => (callAt calls i).key) where
  step h hi he hallows := h.step hi he hallows.1 ()
  due h hi _ _ := h.due hi ()
  stop h := ⟨h.guarded, h.inside⟩
  clock h := ⟨h.guarded, h.inside⟩

theorem owes_pool (client : Client) (calls : List ClientTask) (w : World) :
    (client.pool calls w).owes = List.replicate calls.length [] := by
  rw [pool, TaskPool.owes, List.map_map, List.eq_replicate_iff]
  refine ⟨List.length_map _, fun owed howed => ?_⟩
  obtain ⟨v, -, rfl⟩ := List.mem_map.mp howed
  rfl

variable {w : World}

theorem obeys_pool {Phase : Type} {d : Nat → Discipline Phase}
    {ends : Nat → List Op → Phase → Except Failure String → Prop} {phase : Nat → Phase}
    {calls : List ClientTask} (h : ∀ (i : Nat) (v : ClientTask), calls[i]? = some v →
      (v.program client).Obeys (d i) (ends i) [] (phase i)) :
    (client.pool calls w).Obeys d ends phase := by
  intro i t ht
  obtain ⟨v, hv, rfl⟩ := Option.map_eq_some_iff.mp (List.getElem?_map.symm.trans ht)
  exact ⟨h i v hv, fun op hop => absurd hop List.not_mem_nil⟩

theorem locked_after (calls : List ClientTask) (hmode : client.mode = .singleFlight)
    (hstore : ∀ store ∈ client.store, store.StoreOnly) (hw : w.flight = .empty) (ms : List Move) :
    ((client.pool calls w).after ms).Obeys (fun i => (callAt calls i).rules)
        (fun _ _ _ _ => True) (fun _ => ()) ∧
      Locked (fun i => (callAt calls i).key) (⟨((client.pool calls w).after ms).owes,
        ((client.pool calls w).after ms).world, fun _ => (),
          (client.pool calls w).events ms⟩ : PoolState Unit) := by
  have hstart : (client.pool calls w).Obeys (fun i => (callAt calls i).rules)
      (fun _ _ _ _ => True) (fun _ => ()) := by
    refine obeys_pool fun i v hv => ?_
    rw [callAt_eq hv]
    cases v with
    | accessToken key => exact obeys_accessToken hstore hmode key
    | login username password credentials => exact obeys_login hstore username password credentials
  have hlocked : Locked (fun i => (callAt calls i).key)
      (⟨(client.pool calls w).owes, w, fun _ => (), []⟩ : PoolState Unit) := by
    rw [owes_pool]
    exact .start hw
  obtain ⟨phase, hobeys, hafter⟩ := hstart.after (upholds_locked calls) hlocked ms
  exact ⟨hobeys, hafter⟩

theorem not_post_of_guarded {keys : Nat → String} {owes : List (List Op)} {f : Flight}
    (h : Guarded keys owes f) {i : Nat} {form : Form} {owed : List Op} :
    owes[i]? ≠ some (.post form :: owed) := by
  intro hi
  obtain ⟨s, -, howes⟩ := h.dues hi
  cases howes

theorem inside_of_asks {calls : List ClientTask} {key : String} {i : Nat}
    (hi : calls[i]? = some (.accessToken key))
    (hmode : client.mode = .singleFlight) (hstore : ∀ store ∈ client.store, store.StoreOnly)
    (hw : w.flight = .empty) {ms : List Move} (h : ((client.pool calls w).after ms).Asks i) :
    inside i ((client.pool calls w).events ms) = true := by
  obtain ⟨hobeys, hlocked⟩ := locked_after calls hmode hstore hw ms
  obtain ⟨form, hform⟩ := h
  obtain ⟨t, ht, hnext⟩ := Option.bind_eq_some_iff.mp hform
  have howes := TaskPool.getElem?_owes ht
  rw [hlocked.inside, howes, Option.any_some]
  cases t with
  | running p owed =>
    cases p with
    | step op next =>
      cases hnext
      have hrules : (Task.running (.step (.post form) next) owed).Obeys (callAt calls i).rules
          (fun _ _ _ => True) () := hobeys i _ ht
      rw [callAt_eq hi] at hrules
      exact hrules.1.1.2 form rfl
    | _ => cases hnext
  | leaving owed =>
    cases owed with
    | nil => cases hnext
    | cons op owed =>
      cases hnext
      exact absurd howes (not_post_of_guarded hlocked.guarded)

/-- When callers ask at once for access tokens of one key, at most one of them has acquired the lock
and not released it yet, and none of them asks the endpoint for a pair otherwise; so at most one of
them does, whatever the order of steps, failures and cancellations. -/
theorem one_inside_for_each_key (hmode : client.mode = .singleFlight)
    (hstore : ∀ store ∈ client.store, store.StoreOnly) (calls : List ClientTask)
      (hw : w.flight = .empty)
    (ms : List Move) {key : String} {i j : Nat} (hij : i ≠ j)
    (hi : calls[i]? = some (.accessToken key)) (hj : calls[j]? = some (.accessToken key)) :
    ¬ (inside i ((client.pool calls w).events ms) = true ∧
        inside j ((client.pool calls w).events ms) = true) ∧
      (((client.pool calls w).after ms).Asks i →
        inside i ((client.pool calls w).events ms) = true) ∧
      ¬ (((client.pool calls w).after ms).Asks i ∧ ((client.pool calls w).after ms).Asks j) := by
  obtain ⟨-, hlocked⟩ := locked_after calls hmode hstore hw ms
  have hone : ¬ (inside i ((client.pool calls w).events ms) = true ∧
      inside j ((client.pool calls w).events ms) = true) := by
    rintro ⟨hinside, hinside'⟩
    refine hlocked.exclusive hij hinside hinside' ?_
    simp only [callAt_eq hi, callAt_eq hj, ClientTask.key]
  refine ⟨hone, inside_of_asks hi hmode hstore hw, fun ⟨hasks, hasks'⟩ => hone ⟨?_, ?_⟩⟩
  · exact inside_of_asks hi hmode hstore hw hasks
  · exact inside_of_asks hj hmode hstore hw hasks'

end Client

/-! ### Two callers of one key -/

namespace Expiring

def entry : StoredEntry := ⟨⟨"at_1", "rt_1", 300⟩, none, .epoch⟩

def client : Client :=
  { Client.new ⟨"default", "id", "secret"⟩ with store := some .memory, mode := .singleFlight }

def world : World := { World.isolated .epoch .empty with memory := [("u1", entry)] }

def pool : TaskPool String := client.pool [.accessToken "u1", .accessToken "u1"] world

def moves : List Move := List.replicate 4 (.run 0) ++ List.replicate 4 (.run 1)

theorem second_waits :
    inside 0 (pool.events moves) = true ∧ inside 1 (pool.events moves) = false := by
  have hfirst : inside 0 (pool.events moves) = true := rfl
  have hstore : ∀ store ∈ client.store, store.StoreOnly := by
    rintro _ ⟨⟩
    exact TokenStore.memory_storeOnly
  have hw : world.flight = .empty := rfl
  obtain ⟨hone, -⟩ := Client.one_inside_for_each_key rfl hstore
    [.accessToken "u1", .accessToken "u1"] hw moves Nat.zero_ne_one rfl rfl
  exact ⟨hfirst, Bool.eq_false_iff.mpr fun hsecond => hone ⟨hfirst, hsecond⟩⟩

end Expiring
end TokenKeeper
