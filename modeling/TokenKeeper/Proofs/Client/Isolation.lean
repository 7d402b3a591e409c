import TokenKeeper.Proofs.Client.Steps
import TokenKeeper.Proofs.Callers

/-!
# Callers do not notice each other

The operations of a client for a caller key, and those of its store, take steps for this key and
steps with its lock. So whoever else is served at the same time, from the same file or table, the
same memory and the same registry of locks, or from another table of the same database, a caller
gets the answers that it would get alone.
-/
namespace TokenKeeper

/-! ### Stores -/

structure TokenStore.Keyed (store : TokenStore) : Prop where
  load : ∀ key, (store.load key).IsAbout key
  save : ∀ key tokens credentials expiresAt,
    (store.save key tokens credentials expiresAt).IsAbout key

theorem Op.OnDocument.about {key : String} {op : Op} (h : op.OnDocument key) : op.About key := by
  cases h <;> first | exact rfl | exact trivial

namespace TokenStore

theorem memory_keyed : memory.Keyed where
  load _ :=
    Program.allSteps_bind (Program.allSteps_perform rfl) fun _ => Program.allSteps_ofExcept _
  save _ _ _ _ := Program.allSteps_perform rfl

theorem TakesAtMostThree.keyed {store : TokenStore} (h : store.TakesAtMostThree) : store.Keyed where
  load key := (h.load key).allSteps.mono fun _ hop => hop.about
  save key tokens credentials expiresAt :=
    (h.save key tokens credentials expiresAt).allSteps.mono fun _ hop => hop.about

end TokenStore

theorem StoreKind.keyed (b : StoreKind) : b.store.Keyed := by
  cases b with
  | memory => exact TokenStore.memory_keyed
  | documents => exact TokenStore.documents_takesAtMostThree.keyed
  | sealedDocuments ck => exact (TokenStore.sealedDocuments_takesAtMostThree ck).keyed

/-! ### Clients -/

namespace Client

variable {client : Client} {key : String} {R : Nat → Nat → Prop}

theorem about_of_granting {op : Op} (h : op.isGranting = true) : op.About key := by
  cases op <;> first | contradiction | trivial

variable (hstore : ∀ store ∈ client.store, store.Keyed)

include hstore

theorem login_isAbout (username password : String) (credentials : Credentials) :
    (client.login username password credentials).IsAbout credentials.callerKey :=
  allSteps_login (fun _ => about_of_granting) fun store hsome tokens expiresAt =>
    (hstore store hsome).save credentials.callerKey tokens _ expiresAt

theorem refresh_isAbout (key : String) (tokens : Tokens) (credentials : Credentials) :
    (client.refresh key tokens credentials).IsAbout key := by
  refine Program.allSteps_bind (allSteps_request (fun _ => about_of_granting) _ _) fun granted => ?_
  exact allSteps_persist (fun _ => about_of_granting) _ fun store hsome expiresAt =>
    (hstore store hsome).save key granted none expiresAt

theorem sameSteps_accessToken (key : String) :
    (client.accessToken key).SameSteps key R (client.accessToken key) := by
  have hgrant : ∀ op : Op, op.isGranting = true → op.About key := fun _ => about_of_granting
  have hload : (client.loadEntry key).IsAbout key :=
    allSteps_loadEntry fun store hsome => (hstore store hsome).load key
  have hsave : ∀ store ∈ client.store, ∀ tokens expiresAt,
      (store.save key tokens none expiresAt).IsAbout key :=
    fun store hsome tokens => (hstore store hsome).save key tokens none
  have hagain : (client.refreshAgain key).IsAbout key :=
    allSteps_refreshAgain hgrant hsave fun store hsome => (hstore store hsome).load key
  refine hload.sameSteps.bind fun R₁ _ entry => ?_
  have hdue : (client.isDue entry).IsAbout key := allSteps_isDue hgrant entry
  refine hdue.sameSteps.bind fun R₂ _ due => ?_
  split
  · cases client.mode with
    | independent =>
      have hrefreshed : (_ : Program String).IsAbout key := allSteps_refreshed hgrant hsave entry
      exact hrefreshed.sameSteps
    | singleFlight => exact sameSteps_withSlot hagain
  · have husable : (usable key entry.tokens.accessToken).IsAbout key := allSteps_usable key _
    exact husable.sameSteps

end Client

/-! ### Calls of callers -/

/-- What a caller wants of a client, or of its store. -/
inductive CallerCall
  | login (username password : String) (credentials : Credentials)
  | refresh (key : String) (tokens : Tokens) (credentials : Credentials)
  | accessToken (key : String)
  | save (key : String) (tokens : Tokens) (credentials : Option Credentials) (expiresAt : Instant)
  | load (key : String)

inductive CallerAnswer
  | granted (granted : Granted)
  | token (token : String)
  | saved
  | loaded (entry : StoredEntry)

namespace CallerCall

def key : CallerCall → String
  | .login _ _ credentials => credentials.callerKey
  | .refresh key _ _ => key
  | .accessToken key => key
  | .save key _ _ _ => key
  | .load key => key

def program (client : Client) (b : StoreKind) : CallerCall → Program CallerAnswer
  | .login username password credentials =>
    ((client.on b).login username password credentials).bind fun g => .done (.granted g)
  | .refresh key tokens credentials =>
    ((client.on b).refresh key tokens credentials).bind fun g => .done (.granted g)
  | .accessToken key => ((client.on b).accessToken key).bind fun t => .done (.token t)
  | .save key tokens credentials expiresAt =>
    (b.store.save key tokens credentials expiresAt).bind fun _ => .done .saved
  | .load key => (b.store.load key).bind fun e => .done (.loaded e)

theorem sameSteps_program (client : Client) (b : StoreKind) (e : CallerCall)
    (R : Nat → Nat → Prop) :
    (e.program client b).SameSteps e.key R (e.program client b) := by
  have hstore : ∀ store ∈ (client.on b).store, store.Keyed := by
    rintro _ ⟨⟩
    exact b.keyed
  cases e with
  | login username password credentials =>
    exact (Client.login_isAbout hstore username password credentials).sameSteps.bind
      fun _ _ g => .done _
  | refresh key tokens credentials =>
    exact (Client.refresh_isAbout hstore key tokens credentials).sameSteps.bind fun _ _ g => .done _
  | accessToken key => exact (Client.sameSteps_accessToken hstore key).bind fun _ _ t => .done _
  | save key tokens credentials expiresAt =>
    exact (b.keyed.save key tokens credentials expiresAt).sameSteps.bind fun _ _ u => .done _
  | load key => exact (b.keyed.load key).sameSteps.bind fun _ _ e => .done _

end CallerCall

section

variable {ι : Type} [DecidableEq ι] (client : ι → Client) (kind : ι → StoreKind) (service : Nat → ι)
  (calls : List CallerCall)

/-- The tasks of calls at their services, as far as they are for certain callers. -/
def callerTasks (S : Services ι) (mine : Caller ι → Bool) : CallerTasks ι CallerAnswer where
  services := S
  caller i := ⟨service i, (calls.getD i (.load "")).key⟩
  tasks := calls.mapIdx fun i e =>
    if mine ⟨service i, e.key⟩ then .start (e.program (client (service i)) (kind (service i)))
    else .leaving []

/-- All services are open, and no lock has been made. -/
structure Services.Opened (S : Services ι) : Prop where
  sound : S.Sound
  noLocks : ∀ d, (S.service d).flight = .empty

def Services.supplied (S : Services ι) (nonces : Nat → Nonce) : Services ι :=
  { S with world := { S.world with nonces } }

variable {S T : Services ι} {mine : Caller ι → Bool}

def Services.supply (S : Services ι) (draws : List Nonce) (n : Nat) : Nonce :=
  (draws[n - S.world.drawn]?).getD (S.world.nonces n)

omit [DecidableEq ι] in
theorem Services.supplies_supply (S : Services ι) (draws : List Nonce) :
    (S.supplied (S.supply draws)).Supplies draws := by
  intro k n hk
  change (draws[S.world.drawn + k - S.world.drawn]?).getD _ = n
  rw [Nat.add_sub_cancel_left, hk, Option.getD_some]

omit [DecidableEq ι] in
theorem Services.Opened.supplied (h : T.Opened) (nonces : Nat → Nonce) :
    (T.supplied nonces).Opened where
  sound := ⟨fun s => ⟨(h.sound.ready s).noFault, (h.sound.ready s).medium⟩, h.sound.apart⟩
  noLocks := h.noLocks

omit [DecidableEq ι] in
theorem getElem?_callerTasks (S : Services ι) (mine : Caller ι → Bool) (i : Nat) :
    (callerTasks client kind service calls S mine).tasks[i]? = (calls[i]?).map fun e =>
      if mine ⟨service i, e.key⟩ then .start (e.program (client (service i)) (kind (service i)))
      else .leaving [] :=
  List.getElem?_mapIdx

omit [DecidableEq ι] in
theorem caller_callerTasks {i : Nat} {e : CallerCall} (he : calls[i]? = some e) :
    (callerTasks client kind service calls S mine).caller i = ⟨service i, e.key⟩ := by
  change (⟨service i, (calls.getD i (.load "")).key⟩ : Caller ι) = _
  rw [List.getD_eq_getElem?_getD, he, Option.getD_some]

omit [DecidableEq ι] in
theorem restrictsTo_callerTasks (hS : S.Opened) (hT : T.Opened)
    (hsame : ∀ s, mine s = true → S.slice s = T.slice s) :
    (callerTasks client kind service calls S fun _ => true).RestrictsTo mine (fun _ => [])
      (callerTasks client kind service calls T mine) where
  caller := rfl
  length := by simp only [callerTasks, List.length_mapIdx]
  services := by
    refine ⟨hS.sound, hT.sound, hsame, fun d => ?_⟩
    simp only [callerTasks, hS.noLocks d, hT.noLocks d]
    exact .start _
  task {i t t'} ht ht' hmine := by
    rw [getElem?_callerTasks] at ht ht'
    obtain ⟨e, he, rfl⟩ := Option.map_eq_some_iff.mp ht
    rw [he, Option.map_some, Option.some_inj] at ht'
    rw [caller_callerTasks client kind service calls he] at hmine ⊢
    rw [← ht', if_pos rfl, if_pos hmine]
    exact .running (e.sameSteps_program _ _ _) .nil
  other {i t} ht hmine := by
    rw [getElem?_callerTasks] at ht
    obtain ⟨e, he, rfl⟩ := Option.map_eq_some_iff.mp ht
    rw [caller_callerTasks client kind service calls he, if_pos rfl]
    exact ⟨_, .running (e.sameSteps_program _ _ _) .nil⟩

/-- Callers are isolated. However the tasks take turns, are stopped or see the clock set, a run
restricted to some callers, such as one caller key at one service, is a run of these callers alone,
among any services that have the same for them. -/
theorem run_of_callers_alone (hS : S.Opened) (hT : T.Opened)
    (hsame : ∀ s, mine s = true → S.slice s = T.slice s) (ms : List Move) :
    ∃ nonces locks,
      (callerTasks client kind service calls S fun _ => true).RunRestrictsTo mine locks
        (callerTasks client kind service calls (T.supplied nonces) mine) ms := by
  let draws := (callerTasks client kind service calls S fun _ => true).draws mine ms
  have hrestricts := restrictsTo_callerTasks client kind service calls hS
    (hT.supplied (T.supply draws)) hsame
  obtain ⟨locks, -, hrun⟩ := hrestricts.after ms (T.supplies_supply draws)
  exact ⟨_, locks, hrun⟩

end

/-! ### Two tables of one database -/

namespace TwoTables

def services : Services Bool where
  world := World.isolated .epoch .empty
  service left := ⟨.table (if left then "left" else "right"), [], .empty⟩
  script _ := .scripted []

def client : Client := Client.new ⟨"default", "id", "secret"⟩

def calls : List CallerCall := [.save "u1" ⟨"at_1", "rt_1", 300⟩ none .epoch, .load "u1"]

def tasks : CallerTasks Bool CallerAnswer :=
  callerTasks (fun _ => client) (fun _ => .documents) (· == 0) calls services fun _ => true

def moves : List Move := [.run 0, .run 1]

theorem opened : services.Opened where
  sound := by
    refine ⟨fun s => ⟨rfl, [], rfl⟩, fun d e hne => ⟨_, _, rfl, rfl, ?_⟩⟩
    revert d e
    decide
  noLocks _ := rfl

/-- Nothing is found at the right service, no more than if nobody had called the left one. -/
theorem right_service_alone :
    (∃ nonces locks, tasks.RunRestrictsTo (fun s => !s.service) locks
      (callerTasks (fun _ => client) (fun _ => .documents) (· == 0) calls
        (services.supplied nonces) fun s => !s.service) moves) ∧
      ((tasks.after moves).tasks[1]?).bind Task.result? = some (.error (.nothingStored "u1")) :=
  ⟨run_of_callers_alone _ _ _ _ opened opened (fun _ _ => rfl) moves, rfl⟩

end TwoTables
end TokenKeeper
