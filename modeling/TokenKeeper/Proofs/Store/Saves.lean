import TokenKeeper.Proofs.Store.Tasks

/-!
# Saves at once

Saves of one key take turns on a back end, some with a registration and some without. In memory and
in plain documents a save without one leaves the registration that is there at its write. A sealed
document is written as a whole, with the registration that its save found earlier; so a registration
that was written since is lost, and those writes are the only ones that lose any.
-/
namespace TokenKeeper

open StoreTask

/-- The registration that an event writes for a task that has one to write. -/
def passedBy (ts : List StoreTask) (e : Event) : Option Credentials :=
  match taskAt ts e.task with
  | .save key _ credentials _ => if e.op.writesTo key then Credentials.given credentials else none
  | .load _ => none

def Looked (key : String) (past : List Event) (i : Nat) : Prop :=
  ∃ e ∈ past, e.task = i ∧ e.op = .find key

theorem writes_of_passed {ts : List StoreTask} {e : Event} {c : Credentials}
    (h : passedBy ts e = some c) : (∃ key, e.op.writesTo key = true) ∧
      Credentials.given (some c) = some c := by
  rw [passedBy] at h
  split at h
  · next key tokens credentials expiresAt _ =>
    split at h
    · next hwrites =>
      refine ⟨⟨key, hwrites⟩, ?_⟩
      rw [← h, Credentials.given_given]
    · cases h
  · cases h

theorem passedBy_save {ts : List StoreTask} {i : Nat} {key : String} {tokens : Tokens}
    {credentials : Option Credentials} {expiresAt : Instant}
    (ht : taskAt ts i = .save key tokens credentials expiresAt) (op : Op) (a : op.Answer) :
    passedBy ts ⟨i, op, a⟩ = if op.writesTo key then Credentials.given credentials else none := by
  simp only [passedBy, ht]

theorem Looked.before_write {ts : List StoreTask} {key : String} {past : List Event} {e : Event}
    {i : Nat} {c : Credentials} (h : Looked key (past ++ [e]) i) (he : passedBy ts e = some c) :
    Looked key past i := by
  obtain ⟨look, hlook, htask, hop⟩ := h
  rcases List.mem_append.mp hlook with hlook | hlook
  · exact ⟨look, hlook, htask, hop⟩
  · cases List.mem_singleton.mp hlook
    obtain ⟨⟨k, hwrites⟩, -⟩ := writes_of_passed he
    rw [hop] at hwrites
    cases hwrites

namespace StoreKind

/-- The registration of a key as it is stored, be it complete or not. -/
def kept? : StoreKind → World → String → Option Credentials
  | .documents => fun w key => do
    let doc ← (← (w.find key).toOption)
    return ⟨key, ← textField? doc "client_id", ← textField? doc "client_secret"⟩
  | b => b.credentials?

def keptAs : StoreKind → String → Credentials → Credentials
  | .documents => fun key c => ⟨key, c.clientId, c.clientSecret⟩
  | _ => fun _ c => c

/-- What is stored of the registration of an entry. Plain documents have nothing of a blank one. -/
def storedRegistration (b : StoreKind) (key : String) (r : Option Credentials) :
    Option Credentials :=
  match b with
  | .documents => (Credentials.given r).map (b.keptAs key)
  | _ => r

variable {b : StoreKind} {m : Dict StoredEntry} {w : World}

theorem storedRegistration_given (b : StoreKind) (key : String) {c : Credentials}
    (h : Credentials.given (some c) = some c) :
    b.storedRegistration key (some c) = some (b.keptAs key c) := by
  cases b with
  | documents =>
    rw [storedRegistration, h]
    rfl
  | _ => rfl

theorem kept?_of_image (h : b.image m w) (key : String) :
    b.kept? w key = b.storedRegistration key (registered m key) := by
  cases b with
  | memory => exact credentials?_of_image (b := memory) h key ⟨"", "", 0⟩ .epoch
  | sealedDocuments ck =>
    exact credentials?_of_image (b := sealedDocuments ck) h key ⟨"", "", 0⟩ .epoch
  | documents =>
    have hfind : w.find key = .ok (TokenDocument.holdings m key) := World.Holds.find h key
    simp only [kept?, hfind, TokenDocument.holdings, Except.toOption, storedRegistration,
      registered]
    cases Dict.get? m key with
    | none => rfl
    | some e =>
      simp only [Option.map_some, Option.bind_eq_bind, Option.bind_some, textField?,
        TokenDocument.get?_fields, TokenDocument.texts, Dict.get?_append,
        TokenDocument.registration]
      cases Credentials.given e.credentials with
      | none => rfl
      | some c => rfl

theorem credentialsAfter_given {key : String} {credentials : Option Credentials} {c : Credentials}
    (h : Credentials.given credentials = some c) :
    b.credentialsAfter m key credentials = some c := by
  cases b with
  | sealedDocuments ck => exact (Option.filter_eq_some_iff.mp h).1
  | _ =>
    simp only [credentialsAfter, h]
    rfl

theorem credentialsAfter_none {key : String} {credentials : Option Credentials}
    (hb : ∀ ck, b ≠ .sealedDocuments ck) (h : Credentials.given credentials = none) :
    b.credentialsAfter m key credentials = registered m key := by
  cases b with
  | sealedDocuments ck => exact absurd rfl (hb ck)
  | _ =>
    simp only [credentialsAfter, h]
    rfl

end StoreKind

/-! ### What is stored since the last registration was passed -/

/-- The start with what is stored then, or the moment after a write that passed a registration. -/
inductive Base (ts : List StoreTask) (start : Option Credentials) :
    List Event → Option Credentials → Prop
  | start : Base ts start [] start
  | passed {past : List Event} {e : Event} {c : Credentials} (h : passedBy ts e = some c) :
    Base ts start (past ++ [e]) (some c)

/-- An event that passes no registration. In a sealed store it writes for no task that looked before
the base. -/
def LeavesRegistration (b : StoreKind) (ts : List StoreTask) (key : String) (base : List Event)
    (e : Event) : Prop :=
  passedBy ts e = none ∧ ∀ ck, b = .sealedDocuments ck → Looked key base e.task →
    e.op.writesTo key = false

/-- The stored registration, which is also what saves have found unless they looked too early. -/
def Agrees (b : StoreKind) (key : String) (base : List Event) (r : Option Credentials)
    (m : Dict StoredEntry) (phase : Nat → TaskState) : Prop :=
  registered m key = r ∧ ∀ ck, b = .sealedDocuments ck → ∀ i found, phase i = .looked found →
    Looked key base i ∨ found = r

/-- What is stored agrees with every base in the history that later events leave alone. -/
def AgreesSince (b : StoreKind) (ts : List StoreTask) (key : String) (start : Option Credentials)
    (past : List Event) (m : Dict StoredEntry) (phase : Nat → TaskState) : Prop :=
  ∀ base recent r, past = base ++ recent → Base ts start base r →
    (∀ e ∈ recent, LeavesRegistration b ts key base e) → Agrees b key base r m phase

structure RegistrationKept (b : StoreKind) (ts : List StoreTask) (key : String)
    (start : Option Credentials) (s : PoolState TaskState) : Prop where
  length : s.owes.length = ts.length
  looked : ∀ i found, s.phase i = .looked found → Looked key s.past i
  written : ∀ i, s.phase i = .written → ∃ e ∈ s.past, e.task = i ∧ e.op.writesTo key = true
  kept : ∃ m, b.image m s.world ∧ AgreesSince b ts key start s.past m s.phase

section

variable {b : StoreKind} {ts : List StoreTask} {key : String} {start : Option Credentials}
  {past : List Event} {phase phase' : Nat → TaskState} {m m' : Dict StoredEntry}

theorem AgreesSince.concat {e : Event} (h : AgreesSince b ts key start past m phase)
    (hpassed : ∀ c, passedBy ts e = some c → registered m' key = some c)
    (hlooked : ∀ i found, phase' i = .looked found → Looked key (past ++ [e]) i)
    (hleaves : ∀ base r, Agrees b key base r m phase → LeavesRegistration b ts key base e →
      Agrees b key base r m' phase') : AgreesSince b ts key start (past ++ [e]) m' phase' := by
  intro base recent r hpast hbase hrecent
  rcases List.eq_nil_or_concat recent with rfl | ⟨recent, last, rfl⟩
  · rw [List.append_nil] at hpast
    subst hpast
    refine ⟨?_, fun ck _ i found hi => Or.inl (hlooked i found hi)⟩
    generalize hwhole : past ++ [e] = whole at hbase
    cases hbase with
    | start => exact absurd hwhole (by simp)
    | passed hc =>
      obtain ⟨-, hlast⟩ := List.append_inj' hwhole rfl
      cases hlast
      exact hpassed _ hc
  · rw [List.concat_eq_append, ← List.append_assoc] at hpast
    obtain ⟨hold, hlast⟩ := List.append_inj' hpast rfl
    cases hlast
    have hbefore : ∀ e ∈ recent, LeavesRegistration b ts key base e :=
      fun e he => hrecent e (by simp [he])
    exact hleaves base r (h base recent r hold hbase hbefore) (hrecent e (by simp))

theorem Looked.mono {i : Nat} (h : Looked key past i) (e : Event) : Looked key (past ++ [e]) i := by
  obtain ⟨look, hlook, hrest⟩ := h
  exact ⟨look, List.mem_append_left _ hlook, hrest⟩

theorem Agrees.update {base : List Event} {r : Option Credentials}
    (h : Agrees b key base r m phase) {i : Nat} {s : TaskState} (hs : ∀ found, s ≠ .looked found)
    (hr : registered m' key = r) : Agrees b key base r m' (Function.update phase i s) := by
  refine ⟨hr, fun ck hck j found hj => ?_⟩
  by_cases hij : j = i
  · subst hij
    rw [Function.update_self] at hj
    exact absurd hj (hs found)
  · rw [Function.update_of_ne hij] at hj
    exact h.2 ck hck j found hj

end

namespace RegistrationKept

variable {b : StoreKind} {ts : List StoreTask} {key : String} {start : Option Credentials}
  {s : PoolState TaskState} {i : Nat} {op : Op} {owed : List Op}

theorem of_step (h : RegistrationKept b ts key start s) {m' : Dict StoredEntry} {next : TaskState}
    (owed' : List Op) (hlooked : ∀ found, next = .looked found → op = .find key ∨
      s.phase i = .looked found)
    (hwritten : next = .written → op.writesTo key = true ∨ s.phase i = .written)
    (himage : b.image m' (World.perform op s.world).2) {m : Dict StoredEntry}
    (hm : AgreesSince b ts key start s.past m s.phase)
    (hpassed : ∀ c, passedBy ts ⟨i, op, (World.perform op s.world).1⟩ = some c →
      registered m' key = some c)
    (hleaves : ∀ base r, Agrees b key base r m s.phase →
      LeavesRegistration b ts key base ⟨i, op, (World.perform op s.world).1⟩ →
      Agrees b key base r m' (Function.update s.phase i next)) :
    RegistrationKept b ts key start (s.step i op owed' next) := by
  have hphase : ∀ j, (s.step i op owed' next).phase j = if j = i then next else s.phase j :=
    fun j => Function.update_apply s.phase i next j
  have hlooked' : ∀ j found, (s.step i op owed' next).phase j = .looked found →
      Looked key (s.step i op owed' next).past j := by
    intro j found hj
    rw [hphase] at hj
    split at hj
    · next hij =>
      rcases hlooked found hj with hop | hbefore
      · exact ⟨_, List.mem_concat_self, hij.symm, hop⟩
      · exact (h.looked j found (hij ▸ hbefore)).mono _
    · exact (h.looked j found hj).mono _
  refine ⟨List.length_set.trans h.length, hlooked', fun j hj => ?_, m', himage, ?_⟩
  · have hbefore : s.phase j = .written →
        ∃ e ∈ (s.step i op owed' next).past, e.task = j ∧ e.op.writesTo key = true := by
      intro hj
      obtain ⟨e, he, hrest⟩ := h.written j hj
      exact ⟨e, List.mem_append_left _ he, hrest⟩
    rw [hphase] at hj
    split at hj
    · next hij =>
      rcases hwritten hj with hop | hold
      · exact ⟨_, List.mem_concat_self, hij.symm, hop⟩
      · exact hbefore (hij ▸ hold)
    · exact hbefore hj
  · exact hm.concat hpassed hlooked' hleaves

section

variable {tokens : Tokens} {credentials found : Option Credentials} {expiresAt : Instant}
  {ck : CipherKey}

include tokens credentials expiresAt

theorem nonce_step (h : RegistrationKept b ts key start s)
    (ht : taskAt ts i = .save key tokens credentials expiresAt) (owed : List Op) :
    RegistrationKept b ts key start (s.step i .nonce owed (s.phase i)) := by
  obtain ⟨m, himage, hm⟩ := h.kept
  have hsame : Function.update s.phase i (s.phase i) = s.phase := Function.update_eq_self i s.phase
  refine h.of_step owed (fun found => Or.inr) Or.inr
    (b.keeps.frame himage ⟨rfl, rfl, rfl, rfl, rfl⟩) hm (fun c hc => ?_) fun base r hagrees _ => ?_
  · rw [passedBy_save ht] at hc
    cases hc
  · rw [hsame]
    exact hagrees

theorem look_step (h : RegistrationKept b ts key start s)
    (ht : taskAt ts i = .save key tokens credentials expiresAt) (hb : b = .sealedDocuments ck)
    (owed : List Op) : RegistrationKept b ts key start (s.step i (.find key) owed
      (StoreTask.afterFind b (.save key tokens credentials expiresAt) (s.world.find key))) := by
  obtain ⟨m, himage, hm⟩ := h.kept
  cases hb
  obtain ⟨found, hfind, -, hfound⟩ := StoreKind.find_of_image himage nofun key
  rw [hfind]
  refine h.of_step owed (fun _ _ => Or.inl rfl) nofun himage hm (fun c hc => ?_)
    fun base r hagrees _ => ⟨hagrees.1, ?_⟩
  · rw [passedBy_save ht] at hc
    cases hc
  · rintro _ ⟨⟩ j found' hj
    by_cases hij : j = i
    · subst hij
      rw [Function.update_self] at hj
      cases hj
      exact Or.inr ((hfound _ rfl).trans hagrees.1)
    · rw [Function.update_of_ne hij] at hj
      exact hagrees.2 _ rfl j found' hj

theorem writes_step (h : RegistrationKept b ts key start s)
    (ht : taskAt ts i = .save key tokens credentials expiresAt)
    (hwrites : b.Writes key tokens found expiresAt op) (owed : List Op)
    (hpassed : ∀ m c, Credentials.given credentials = some c →
      b.credentialsAfter m key found = some c)
    (hleaves : ∀ base m r, Agrees b key base r m s.phase → Credentials.given credentials = none →
      (∀ ck, b = .sealedDocuments ck → ¬ Looked key base i) →
        b.credentialsAfter m key found = r) :
    RegistrationKept b ts key start (s.step i op owed .written) := by
  obtain ⟨m, himage, hm⟩ := h.kept
  have hwrote : op.writesTo key = true := by
    rw [hwrites.writesTo, beq_self_eq_true]
  have hpasses : passedBy ts ⟨i, op, (World.perform op s.world).1⟩ =
      Credentials.given credentials := by
    rw [passedBy_save ht, if_pos hwrote]
  refine h.of_step owed nofun (fun _ => Or.inl hwrote) (hwrites.image himage) hm
    (fun c hc => ?_) fun base r hagrees hq => hagrees.update nofun ?_
  · rw [StoreKind.registered_insert]
    exact hpassed m c (hpasses.symm.trans hc)
  · rw [StoreKind.registered_insert]
    refine hleaves base m r hagrees (hpasses.symm.trans hq.1) fun ck hck hearly => ?_
    exact absurd hwrote (by rw [hq.2 ck hck hearly]; decide)

theorem write_step (h : RegistrationKept b ts key start s)
    (ht : taskAt ts i = .save key tokens credentials expiresAt)
    (hb : ∀ ck, b = .sealedDocuments ck → Credentials.given credentials = credentials ∧
      credentials.isSome) (hwrites : b.Writes key tokens credentials expiresAt op)
    (owed : List Op) : RegistrationKept b ts key start (s.step i op owed .written) := by
  refine h.writes_step ht hwrites owed (fun m c => StoreKind.credentialsAfter_given)
    fun base m r hagrees hnone _ => ?_
  rw [StoreKind.credentialsAfter_none _ hnone]
  · exact hagrees.1
  · intro ck hck
    obtain ⟨hsame, hsome⟩ := hb ck hck
    rw [← hsame, hnone] at hsome
    cases hsome

theorem reseal_step (h : RegistrationKept b ts key start s)
    (ht : taskAt ts i = .save key tokens credentials expiresAt) (hb : b = .sealedDocuments ck)
    (hc : Credentials.given credentials = none) (hphase : s.phase i = .looked found)
    (hwrites : b.Writes key tokens found expiresAt op) (owed : List Op) :
    RegistrationKept b ts key start (s.step i op owed .written) := by
  refine h.writes_step ht hwrites owed (fun m c hgiven => ?_) fun base m r hagrees _ hlate => ?_
  · cases hc.symm.trans hgiven
  · cases hb
    rcases hagrees.2 ck rfl i found hphase with hearly | hfound
    · exact absurd hearly (hlate ck rfl)
    · exact hfound

end

theorem due_step (h : RegistrationKept b ts key start s) (houter : op.isOuter = true)
    (owed : List Op) : RegistrationKept b ts key start (s.step i op owed .over) := by
  obtain ⟨m, himage, hm⟩ := h.kept
  refine h.of_step owed nofun nofun (b.keeps.frame himage (World.sameInside_perform houter _)) hm
    (fun c hc => ?_) fun base r hagrees _ => hagrees.update nofun hagrees.1
  rw [passedBy] at hc
  split at hc
  · rw [Op.writesTo_outer houter] at hc
    cases hc
  · cases hc

theorem stop (h : RegistrationKept b ts key start s) (i : Nat) :
    RegistrationKept b ts key start (s.stop i .over) := by
  have hphase : ∀ j, (s.stop i .over).phase j = if j = i then .over else s.phase j :=
    fun j => Function.update_apply s.phase i _ j
  obtain ⟨m, himage, hm⟩ := h.kept
  refine ⟨h.length, fun j found hj => ?_, fun j hj => ?_, m, himage,
    fun base recent r hpast hbase hrecent => ?_⟩
  · rw [hphase] at hj
    split at hj
    · cases hj
    · exact h.looked j found hj
  · rw [hphase] at hj
    split at hj
    · cases hj
    · exact h.written j hj
  · have hagrees := hm base recent r hpast hbase hrecent
    exact hagrees.update nofun hagrees.1

theorem tick (h : RegistrationKept b ts key start s) (now : Instant) :
    RegistrationKept b ts key start (s.tick now) := by
  obtain ⟨m, himage, hm⟩ := h.kept
  exact ⟨h.length, h.looked, h.written, m, b.keeps.frame himage ⟨rfl, rfl, rfl, rfl, rfl⟩, hm⟩

end RegistrationKept

theorem upholds_registrationKept {b : StoreKind} {ts : List StoreTask} {key : String}
    (start : Option Credentials) (hts : ∀ t ∈ ts, ∃ tokens credentials expiresAt,
      t = .save key tokens credentials expiresAt) :
    Upholds (fun i => (taskAt ts i).rules b) (RegistrationKept b ts key start) where
  step := by
    intro s i op owed h hi _ hallows
    obtain ⟨m, himage, -⟩ := h.kept
    refine ⟨Allows.answers hallows himage, ?_⟩
    have hthere : i < ts.length := by
      rw [← h.length]
      exact (List.getElem?_eq_some_iff.mp hi).1
    have htask := List.getElem?_eq_getElem hthere
    obtain ⟨tokens, credentials, expiresAt, hsave⟩ := hts _ (List.mem_of_getElem? htask)
    have ht := (taskAt_eq htask).trans hsave
    change (taskAt ts i).Allows b (s.phase i) op at hallows
    change RegistrationKept b ts key start (s.step i op _ ((taskAt ts i).next b (s.phase i) op _))
    rw [ht] at hallows ⊢
    generalize hphase : s.phase i = phase at hallows
    cases hallows with
    | nonce =>
      rw [← hphase]
      exact h.nonce_step ht _
    | look hb hc => exact h.look_step ht hb _
    | write hb hwrites =>
      rw [next_of_writes hwrites]
      exact h.write_step ht hb hwrites _
    | reseal hb hc hwrites =>
      rw [next_of_writes hwrites]
      exact h.reseal_step ht hb hc hphase hwrites _
  due h _ houter _ := h.due_step houter _
  stop h := h.stop _
  clock h := h.tick _

namespace StoreKind

variable {m : Dict StoredEntry} {w : World}

/-- Saves of one key that take turns. Each one that ends has written. What is stored in the end is
the registration that was passed last, and the one from the start if none was passed; in a sealed
store, provided no save has written since that had looked before. -/
theorem registration_after_saves (b : StoreKind) (hw : b.image m w) {key : String}
    {ts : List StoreTask} (hts : ∀ t ∈ ts, ∃ tokens credentials expiresAt,
      t = .save key tokens credentials expiresAt) (ms : List Move) :
    (∀ i r, (((b.tasks ts w).after ms).tasks[i]?).bind Task.result? = some r →
      r = .ok none ∧ ∃ e ∈ (b.tasks ts w).events ms, e.task = i ∧ e.op.writesTo key = true) ∧
    ((∀ e ∈ (b.tasks ts w).events ms, passedBy ts e = none) →
      b.kept? ((b.tasks ts w).after ms).world key = b.kept? w key) ∧
    (∀ past e later c, (b.tasks ts w).events ms = past ++ e :: later → passedBy ts e = some c →
      (∀ e ∈ later, passedBy ts e = none) →
      (∀ ck, b = .sealedDocuments ck → ∀ e ∈ later, Looked key past e.task →
        e.op.writesTo key = false) →
      b.kept? ((b.tasks ts w).after ms).world key = some (b.keptAs key c)) := by
  have hstart : RegistrationKept b ts key (registered m key)
      ⟨(b.tasks ts w).owes, w, fun _ => .fresh, []⟩ := by
    refine ⟨?_, nofun, nofun, m, hw, fun base recent r hpast hbase _ => ⟨?_, nofun⟩⟩
    · rw [TaskPool.owes, tasks, List.length_map, List.length_map]
    · obtain ⟨rfl, -⟩ := List.append_eq_nil_iff.mp hpast.symm
      generalize hempty : ([] : List Event) = base at hbase
      cases hbase with
      | start => rfl
      | passed hc => exact absurd hempty (by simp)
  obtain ⟨phase, hobeys, hinv⟩ :=
    (b.obeys_tasks ts w).after (upholds_registrationKept (registered m key) hts) hstart ms
  obtain ⟨m', himage, hkept⟩ := hinv.kept
  refine ⟨fun i r hr => ?_, fun hnone => ?_, fun past e later c hevents hc hlater hlook => ?_⟩
  · obtain ⟨t, ht, hresult⟩ := Option.bind_eq_some_iff.mp hr
    have hthere : i < ts.length := by
      rw [← hinv.length]
      exact (List.getElem?_eq_some_iff.mp (TaskPool.getElem?_owes ht)).1
    have htask := List.getElem?_eq_getElem hthere
    obtain ⟨tokens, credentials, expiresAt, hsave⟩ := hts _ (List.mem_of_getElem? htask)
    rw [hsave] at htask
    have hends : (StoreTask.save key tokens credentials expiresAt).Ends b (phase i) r := by
      have hrules := hobeys i t ht
      simp only [taskAt_eq htask] at hrules
      cases t with
      | leaving owed => cases hresult
      | running p owed =>
        cases p with
        | step op next => cases hresult
        | done a =>
          cases hresult
          exact hrules.1
        | fail e =>
          cases hresult
          exact hrules.1
    exact ⟨hends.1, hinv.written i hends.2⟩
  · have hagrees := hkept [] _ _ rfl .start fun e he => ⟨hnone e he, fun _ _ hlooked => ?_⟩
    · rw [kept?_of_image himage, kept?_of_image hw, hagrees.1]
    · obtain ⟨look, hlook, -⟩ := hlooked
      cases hlook
  · have hpast : (b.tasks ts w).events ms = (past ++ [e]) ++ later := by
      rw [hevents, List.append_assoc]
      rfl
    have hagrees := hkept (past ++ [e]) later (some c) hpast (.passed hc) fun ev hev =>
      ⟨hlater ev hev, fun ck hck hlooked => hlook ck hck ev hev (hlooked.before_write hc)⟩
    rw [kept?_of_image himage, hagrees.1, storedRegistration_given b key (writes_of_passed hc).2]

end StoreKind

/-! ### A registration that is lost -/

namespace Resealed

section

variable {α : Type} {ck : CipherKey} {c : TaskPool α} {i : Nat} {m : Dict StoredEntry}
  {owed : List Op} {key : String}

theorem after_seal {p : Payload} {expiresAt : Instant} {k : Except Failure Unit → Program α}
    (himage : (StoreKind.sealedDocuments ck).image m c.world)
    (hc : c.tasks[i]? = some (.running (.step .nonce fun nonce => .step
      (.upsert key (SealedDocument.fields ck nonce key p expiresAt)) k) owed)) :
    (c.after [.run i, .run i]).tasks[i]? = some (.running (k (.ok ())) owed) ∧
      (StoreKind.sealedDocuments ck).image
        (Dict.insert m key ⟨p.tokens, p.credentials, expiresAt⟩) (c.after [.run i, .run i]).world ∧
      ∃ nonce doc answer, c.events [.run i, .run i] =
        [⟨i, .nonce, nonce⟩, ⟨i, .upsert key doc, answer⟩] := by
  obtain ⟨hdrawn, hworld⟩ := TaskPool.task_move_run hc rfl rfl
  have himage' : (StoreKind.sealedDocuments ck).image m (c.move (.run i)).world := by
    rw [hworld]
    exact (StoreKind.sealedDocuments ck).keeps.frame himage ⟨rfl, rfl, rfl, rfl, rfl⟩
  obtain ⟨docs, hdocs, hseals⟩ := himage'
  obtain ⟨w', hupsert, -, hsealed⟩ :=
    SealedDocument.perform_upsert hdocs hseals (c.world.nonces c.world.drawn) key p expiresAt
  obtain ⟨hdone, hworld'⟩ := TaskPool.task_move_run hdrawn rfl hupsert
  refine ⟨hdone, ?_, ?_⟩
  · change (StoreKind.sealedDocuments ck).image _ ((c.move (.run i)).move (.run i)).world
    rw [hworld']
    exact hsealed
  · rw [TaskPool.events, TaskPool.events, TaskPool.events, TaskPool.event?_run hc rfl,
      TaskPool.event?_run hdrawn rfl]
    exact ⟨_, _, _, rfl⟩

theorem after_look {k : Option Credentials → Program α}
    {next : Except Failure (Option Document) → Program α}
    (himage : (StoreKind.sealedDocuments ck).image m c.world)
    (hc : c.tasks[i]? = some (.running (.step (.find key) next) owed))
    (hnext : ∀ found, next (.ok found) = k (found.bind (SealedDocument.credentials? ck))) :
    (c.after [.run i]).tasks[i]? = some (.running (k (registered m key)) owed) ∧
      (c.after [.run i]).world = c.world ∧
      ∃ answer, c.events [.run i] = [⟨i, .find key, answer⟩] := by
  obtain ⟨found, hfind, -, hfound⟩ := StoreKind.find_of_image himage nofun key
  obtain ⟨hlooked, hworld⟩ := TaskPool.task_move_run hc rfl (congrArg (·, c.world) hfind)
  refine ⟨?_, hworld, ?_⟩
  · rw [← hfound ck rfl, ← hnext]
    exact hlooked
  · rw [TaskPool.events, TaskPool.events, TaskPool.event?_run hc rfl]
    exact ⟨_, rfl⟩

end

def old : Credentials := ⟨"u1", "cid_old", "cs_old"⟩

def new : Credentials := ⟨"u1", "cid_new", "cs_new"⟩

def tasks : List StoreTask := [.save "u1" ⟨"at_login", "rt_login", 900⟩ (some new) .epoch,
  .save "u1" ⟨"at_2", "rt_2", 900⟩ none .epoch, .save "u1" ⟨"at_1", "rt_1", 300⟩ (some old) .epoch]

def pool : TaskPool (Option StoredEntry) :=
  (StoreKind.sealedDocuments TokenStore.trialKey).tasks tasks (World.isolated .epoch .empty)

def finish (answer : Except Failure Unit) : Program (Option StoredEntry) :=
  (Program.ofExcept answer).bind fun _ => .done none

def moves : List Move := [.run 2, .run 2] ++ ([.run 1] ++ ([.run 0, .run 0] ++ [.run 1, .run 1]))

def sealing (tokens : Tokens) (credentials : Option Credentials) : Program (Option StoredEntry) :=
  .step .nonce fun nonce => .step (.upsert "u1" (SealedDocument.fields TokenStore.trialKey nonce
    "u1" ⟨tokens, credentials⟩ .epoch)) finish

theorem others_of_ne {i j : Nat} (hij : i ≠ j) (n : Nat) :
    Others i (List.replicate n (.run j)) := by
  intro mv hmv
  rw [List.eq_of_mem_replicate hmv]
  exact ⟨fun h => hij (Move.run.inj h).symm, nofun⟩

theorem refresh_looks : ∃ next, pool.tasks[1]? = some (.running (.step (.find "u1") next) []) ∧
    ∀ found, next (.ok found) = sealing ⟨"at_2", "rt_2", 900⟩
      (found.bind (SealedDocument.credentials? TokenStore.trialKey)) := by
  refine ⟨_, rfl, fun found => ?_⟩
  cases found <;> rfl

/-- All saves have ended, the registration of the second login was passed last, and yet what is
stored is that of the first. -/
theorem registration_overwritten :
    ((pool.after moves).tasks[0]?).bind Task.result? = some (.ok none) ∧
      ((pool.after moves).tasks[1]?).bind Task.result? = some (.ok none) ∧
      ((pool.after moves).tasks[2]?).bind Task.result? = some (.ok none) ∧
      (pool.events moves).filterMap (passedBy tasks) = [old, new] ∧
      (StoreKind.sealedDocuments TokenStore.trialKey).kept? (pool.after moves).world "u1" =
        some old := by
  have hempty : (StoreKind.sealedDocuments TokenStore.trialKey).image [] pool.world :=
    StoreKind.Fresh.image (emptyCollection_isolated .epoch .empty)
  have hfirst : pool.tasks[2]? =
      some (.running (sealing ⟨"at_1", "rt_1", 300⟩ (some old)) []) := rfl
  have hlogin : pool.tasks[0]? =
      some (.running (sealing ⟨"at_login", "rt_login", 900⟩ (some new)) []) := rfl
  obtain ⟨next, hlook, hnext⟩ := refresh_looks
  obtain ⟨hfirst, himage, _, _, _, hevents⟩ := after_seal (k := finish) hempty hfirst
  generalize hc₁ : pool.after [.run 2, .run 2] = c₁ at hfirst himage
  have hother₁ : ∀ i, i ≠ 2 → c₁.tasks[i]? = pool.tasks[i]? := fun i hi =>
    hc₁ ▸ TaskPool.task_after_others (others_of_ne hi 2) pool
  rw [← hother₁ 1 (by decide)] at hlook
  obtain ⟨hlooked, hworld, _, hevents₁⟩ := after_look himage hlook hnext
  generalize hc₂ : c₁.after [.run 1] = c₂ at hlooked hworld
  have hother₂ : ∀ i, i ≠ 1 → c₂.tasks[i]? = c₁.tasks[i]? := fun i hi =>
    hc₂ ▸ TaskPool.task_after_others (others_of_ne hi 1) c₁
  rw [← hworld] at himage
  rw [← hother₁ 0 (by decide), ← hother₂ 0 (by decide)] at hlogin
  obtain ⟨hlogin, himage, _, _, _, hevents₂⟩ := after_seal (k := finish) himage hlogin
  generalize hc₃ : c₂.after [.run 0, .run 0] = c₃ at hlogin himage
  have hother₃ : ∀ i, i ≠ 0 → c₃.tasks[i]? = c₂.tasks[i]? := fun i hi =>
    hc₃ ▸ TaskPool.task_after_others (others_of_ne hi 2) c₂
  rw [← hother₃ 1 (by decide)] at hlooked
  obtain ⟨hrefresh, himage, _, _, _, hevents₃⟩ := after_seal (k := finish) himage hlooked
  have hother₄ : ∀ i, i ≠ 1 → (c₃.after [.run 1, .run 1]).tasks[i]? = c₃.tasks[i]? := fun i hi =>
    TaskPool.task_after_others (others_of_ne hi 2) c₃
  have hmoves : pool.after moves = c₃.after [.run 1, .run 1] := by
    rw [moves, TaskPool.after_append, TaskPool.after_append, TaskPool.after_append, hc₁, hc₂, hc₃]
  refine ⟨?_, ?_, ?_, ?_, ?_⟩
  · rw [hmoves, hother₄ 0 (by decide), hlogin]
    rfl
  · rw [hmoves, hrefresh]
    rfl
  · rw [hmoves, hother₄ 2 (by decide), hother₃ 2 (by decide), hother₂ 2 (by decide), hfirst]
    rfl
  · rw [moves, TaskPool.events_append, TaskPool.events_append, TaskPool.events_append,
      hevents, hc₁, hevents₁, hc₂, hevents₂, hc₃, hevents₃]
    rfl
  · rw [hmoves, StoreKind.kept?_of_image himage, StoreKind.registered_insert]
    rfl

def orderly : List Move := [.run 0, .run 0] ++ ([.run 1] ++ [.run 1, .run 1])

theorem events_orderly : ∃ n d a found n' d' a', pool.events orderly =
    [⟨0, .nonce, n⟩, ⟨0, .upsert "u1" d, a⟩, ⟨1, .find "u1", found⟩, ⟨1, .nonce, n'⟩,
      ⟨1, .upsert "u1" d', a'⟩] := by
  have hempty : (StoreKind.sealedDocuments TokenStore.trialKey).image [] pool.world :=
    StoreKind.Fresh.image (emptyCollection_isolated .epoch .empty)
  have hlogin : pool.tasks[0]? =
      some (.running (sealing ⟨"at_login", "rt_login", 900⟩ (some new)) []) := rfl
  obtain ⟨next, hlook, hnext⟩ := refresh_looks
  obtain ⟨-, himage, n, d, a, hevents⟩ := after_seal (k := finish) hempty hlogin
  rw [← TaskPool.task_after_others (others_of_ne (by decide : 1 ≠ 0) 2) pool] at hlook
  obtain ⟨hlooked, hworld, found, hevents₁⟩ := after_look himage hlook hnext
  rw [← hworld] at himage
  obtain ⟨-, -, n', d', a', hevents₂⟩ := after_seal (k := finish) himage hlooked
  refine ⟨n, d, a, found, n', d', a', ?_⟩
  rw [orderly, TaskPool.events_append, TaskPool.events_append, hevents]
  exact congrArg (_ ++ ·) ((congrArg₂ (· ++ ·) hevents₁ hevents₂))

theorem registration_preserved :
    (StoreKind.sealedDocuments TokenStore.trialKey).kept? (pool.after orderly).world "u1" =
      some new := by
  have hempty : (StoreKind.sealedDocuments TokenStore.trialKey).image []
      (World.isolated .epoch .empty) :=
    StoreKind.Fresh.image (emptyCollection_isolated .epoch .empty)
  have hsaves : ∀ t ∈ tasks, ∃ tokens credentials expiresAt,
      t = .save "u1" tokens credentials expiresAt := by
    intro t ht
    simp only [tasks, List.mem_cons, List.not_mem_nil, or_false] at ht
    rcases ht with rfl | rfl | rfl <;> exact ⟨_, _, _, rfl⟩
  obtain ⟨-, -, hlast⟩ := StoreKind.registration_after_saves
    (.sealedDocuments TokenStore.trialKey) hempty hsaves orderly
  obtain ⟨_, _, _, _, _, _, _, hevents⟩ := events_orderly
  refine hlast [_] _ _ new hevents rfl (fun e he => ?_) fun ck _ e he hlooked => ?_
  · simp only [List.mem_cons, List.not_mem_nil, or_false] at he
    rcases he with rfl | rfl | rfl <;> rfl
  · obtain ⟨look, hlook, -, hop⟩ := hlooked
    cases List.mem_singleton.mp hlook
    cases hop

end Resealed
end TokenKeeper
