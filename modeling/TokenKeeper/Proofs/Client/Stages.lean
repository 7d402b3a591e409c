import TokenKeeper.Proofs.Client.SingleFlight

/-!
# The stages of a refresh under a lock

A task that asks for an access token acquires the lock of its key, looks into the store again and at
the clock, and only then asks for a new pair, with the refresh token that it has just seen. The pair
that it is granted is the one that it saves. A login is granted a pair without the lock. The stages
of a task say how far it has come, and all tasks of a client keep to the rules of their stages.
-/
namespace TokenKeeper

/-! ### Pairs that are granted -/

def Exchange.pair? (x : Exchange) : Option Tokens := (x.tokens .refresh).toOption

theorem Exchange.tokens_of_tokens {x : Exchange} {pair : Tokens} {grant : GrantKind}
    (h : x.tokens grant = .ok pair) (other : GrantKind) : x.tokens other = .ok pair := by
  unfold tokens at h ⊢
  cases x with
  | silence => cases h
  | answer status body =>
    simp only at h ⊢
    split at h
    · next hsuccess =>
      rw [if_pos hsuccess]
      cases body with
      | none => cases h
      | some bytes =>
        simp only at h ⊢
        cases hread : Tokens.ofBytes? bytes with
        | none =>
          rw [hread] at h
          cases h
        | some tokens =>
          rw [hread] at h
          exact h
    · cases h

theorem Exchange.pair?_eq_some {x : Exchange} {pair : Tokens} (grant : GrantKind) :
    x.pair? = some pair ↔ x.tokens grant = .ok pair := by
  have hrefresh : x.pair? = some pair ↔ x.tokens .refresh = .ok pair := by
    unfold pair?
    cases x.tokens .refresh <;> simp [Except.toOption]
  rw [hrefresh]
  exact ⟨fun h => tokens_of_tokens h grant, fun h => tokens_of_tokens h .refresh⟩

def Endpoint.grants : Endpoint → List String
  | .unreachable => []
  | .scripted answers => answers.filterMap fun x => x.pair?.map (·.refreshToken)

theorem Endpoint.grants_respond (e : Endpoint) : e.grants =
    (e.respond.1.pair?.map (·.refreshToken)).toList ++ e.respond.2.grants := by
  cases e with
  | unreachable => rfl
  | scripted answers =>
    cases answers with
    | nil => rfl
    | cons x rest =>
      rw [grants, List.filterMap_cons]
      cases hx : x.pair? with
      | none => simp [respond, hx, grants]
      | some pair => simp [respond, hx, grants]

/-! ### Stages -/

inductive Stage
  | outside
  | entered
  | found (seen : Option StoredEntry)
  /-- The task has loaded an entry under the lock, or none, and maybe looked at the clock after
  that. -/
  | reread (seen : Option StoredEntry) (now : Option Instant)
  | granted (pair : Tokens)
  | left (seen : Option StoredEntry) (now : Option Instant)
  | finished
  | gone

def StoreKind.seen? (b : StoreKind) (key : String) : (op : Op) → op.Answer → Option StoredEntry
  | .recall _, answer => answer.toOption
  | .find _, answer => answer.toOption.join.bind (b.entryIn? key)
  | _, _ => none

namespace Stage

def read (seen : Option StoredEntry) : Stage → Stage
  | .entered => .reread seen none
  | st => st

def find (seen : Option StoredEntry) : Stage → Stage
  | .entered => .found seen
  | st => st

def look (now : Instant) : Stage → Stage
  | .found seen => .reread (seen.filter fun e => !e.isExpiredAt now) none
  | .reread seen _ => .reread seen (some now)
  | st => st

def leave : Stage → Stage
  | .entered => .finished
  | .found _ => .finished
  | .reread seen now => .left seen now
  | .granted _ => .finished
  | st => st

def ask (x : Exchange) : Stage :=
  match x.pair? with
  | some pair => .granted pair
  | none => .finished

def next (b : StoreKind) (key : String) (st : Stage) : (op : Op) → op.Answer → Stage
  | .acquire _, _ => .entered
  | .release _, _ => st.leave
  | .recall k, answer => st.read (b.seen? key (.recall k) answer)
  | .find k, answer => st.find (b.seen? key (.find k) answer)
  | .now, now => st.look now
  | .post _, x => ask x
  | .upsert .., _ => .finished
  | .keep .., _ => .finished
  | _, _ => st

inductive IsUnder : Stage → Prop
  | entered : IsUnder .entered
  | found (seen : Option StoredEntry) : IsUnder (.found seen)
  | reread (seen : Option StoredEntry) (now : Option Instant) : IsUnder (.reread seen now)
  | granted (pair : Tokens) : IsUnder (.granted pair)

def sees : Stage → Option StoredEntry
  | .found seen => seen
  | .reread seen _ => seen
  | _ => none

theorem under_of_sees {st : Stage} {e : StoredEntry} (h : st.sees = some e) : st.IsUnder := by
  cases st with
  | found seen => exact .found seen
  | reread seen now => exact .reread seen now
  | _ => cases h

end Stage

def usableResult (key accessToken : String) : Except Failure String :=
  if accessToken = "" then .error (.emptyAccessToken key) else .ok accessToken

namespace ClientTask

inductive Allows (client : Client) (b : StoreKind) (v : ClientTask) : Stage → Op → Prop
  | acquire (slot : Slot) : Allows client b v .outside (.acquire slot)
  | lock {st : Stage} {op : Op} (h : op.isLocking = true) (hop : ∀ slot, op ≠ .acquire slot) :
    Allows client b v st op
  | now {st : Stage} : Allows client b v st .now
  | count {st : Stage} (counter : Counter) : Allows client b v st (.count counter)
  | nonce {st : Stage} : Allows client b v st .nonce
  | find {st : Stage} (hb : b ≠ .memory) : Allows client b v st (.find v.key)
  | fetch {st : Stage} (hb : b = .memory) : Allows client b v st (.recall v.key)
  | purge {st : Stage} (hb : b ≠ .memory) (text : String) :
    Allows client b v st (.deleteIf v.key expiryField (.str text))
  | refresh {key : String} {e : StoredEntry} {now : Instant} (hv : v = .accessToken key)
    (hdue : client.needsRefresh now e.expiresAt = true) (credentials : Credentials) :
    Allows client b v (.reread (some e) (some now))
      (.post (refreshForm e.tokens.refreshToken credentials))
  | login (hv : ∀ key, v ≠ .accessToken key) (form : Form) :
    Allows client b v .outside (.post form)
  | write {pair : Tokens} {credentials : Option Credentials} {expiresAt : Instant} {op : Op}
    (h : b.Writes v.key pair credentials expiresAt op) : Allows client b v (.granted pair) op

def Ends (client : Client) : ClientTask → Stage → Except Failure String → Prop
  | .accessToken key, st, r => st ≠ .gone ∧ ¬ st.IsUnder ∧ ∀ e now, st = .left (some e) now →
    ∃ t, now = some t ∧
      (client.needsRefresh t e.expiresAt = false → r = usableResult key e.tokens.accessToken)
  | .login .., _, _ => True

def stages (client : Client) (b : StoreKind) (v : ClientTask) : Discipline Stage where
  allows owed st op := op.Fits v.key owed ∧ st ≠ .gone ∧ v.Allows client b st op
  expects _ op answer := op.Fitting answer ∧ b.Answers op answer
  next := Stage.next b v.key
  gone := .gone

end ClientTask

/-! ### Stages of programs -/

section

variable {client : Client} {b : StoreKind} {v : ClientTask} {owed : List Op} {st : Stage}

theorem ClientTask.allows_unlocked {op : Op} (hop : op.isLocking = false) (hst : st ≠ .gone)
    (h : v.Allows client b st op) : (v.stages client b).allows owed st op :=
  ⟨Op.fits_unlocked hop _ _, hst, h⟩

theorem Stage.next_of_writes {key k : String} {pair : Tokens} {credentials : Option Credentials}
    {expiresAt : Instant} {op : Op} {answer : op.Answer}
    (h : b.Writes k pair credentials expiresAt op) : st.next b key op answer = .finished := by
  cases h <;> rfl

theorem StoreKind.Writes.unlocked {key : String} {pair : Tokens} {credentials : Option Credentials}
    {expiresAt : Instant} {op : Op} (h : b.Writes key pair credentials expiresAt op) :
    op.isLocking = false := by
  cases h <;> rfl

theorem Stage.find_ne_gone (h : st ≠ .gone) (seen : Option StoredEntry) :
    st.find seen ≠ .gone := by
  cases st <;> first | exact h | exact nofun

theorem Stage.look_ne_gone (h : st ≠ .gone) (now : Instant) : st.look now ≠ .gone := by
  cases st <;> first | exact h | exact nofun

inductive Stage.Loaded (st : Stage) : Stage → Except Failure StoredEntry → Prop
  | missing (failure : Failure) : Loaded st (st.find none) (.error failure)
  | expired {e : StoredEntry} {now : Instant} (h : e.isExpiredAt now = true) (failure : Failure) :
    Loaded st ((st.find (some e)).look now) (.error failure)
  | live {e : StoredEntry} {now : Instant} (h : e.isExpiredAt now = false) :
    Loaded st ((st.find (some e)).look now) (.ok e)
  | refused (failure : Failure) : Loaded st (st.read none) (.error failure)
  | recalled (e : StoredEntry) : Loaded st (st.read (some e)) (.ok e)

theorem ClientTask.obeys_load (client : Client) (b : StoreKind) (v : ClientTask)
    (hst : st ≠ .gone) : (b.store.load v.key).Obeys (v.stages client b)
      (fun owed' st' r => owed' = owed ∧ st.Loaded st' r) owed st := by
  by_cases hb : b = .memory
  · cases hb
    refine ⟨allows_unlocked rfl hst (.fetch rfl), fun answer _ => ?_⟩
    refine Program.obeys_ofExcept ⟨rfl, ?_⟩
    cases answer with
    | ok e => exact .recalled e
    | error failure => exact .refused failure
  · refine StoreKind.obeys_load hb (allows_unlocked rfl hst (.find hb)) (fun _ _ _ h => h.2)
      (fun _ => ⟨rfl, .missing _⟩) ?_
    rintro e doc found hdoc - hfound
    have hshown : ∀ now, (b.shown v.key e).isExpiredAt now = e.isExpiredAt now := by
      intro now
      unfold StoredEntry.isExpiredAt
      rw [(b.shown_looksLike v.key e).expiresAt]
    have hstage : found = st.find (some (b.shown v.key e)) :=
      hfound.symm.trans (congrArg st.find hdoc.entryIn?)
    have hne : found ≠ .gone := hstage ▸ st.find_ne_gone hst _
    refine ⟨allows_unlocked rfl hne .now, ?_⟩
    rintro now judged - hjudged
    have hlook : judged = (st.find (some (b.shown v.key e))).look now :=
      hjudged.symm.trans (congrArg (Stage.look now) hstage)
    refine ⟨fun he => ⟨rfl, ?_⟩, fun he => ⟨allows_unlocked rfl ?_ (.purge hb _), fun removed =>
      ⟨rfl, ?_⟩⟩⟩
    · rw [hlook]
      exact .live ((hshown now).trans he)
    · rw [hlook]
      exact Stage.look_ne_gone (st.find_ne_gone hst _) now
    · change st.Loaded judged _
      rw [hlook]
      exact .expired ((hshown now).trans he) _

theorem ClientTask.obeys_save (b : StoreKind) (v : ClientTask) (pair : Tokens)
    (credentials : Option Credentials) (expiresAt : Instant) :
    (b.store.save v.key pair credentials expiresAt).Obeys (v.stages client b)
      (fun owed' st _ => owed' = owed ∧ st = .finished) owed (.granted pair) := by
  refine b.obeys_save (fun _ _ _ h => h.2) ?_ ?_ ?_
  · exact ⟨allows_unlocked rfl nofun .nonce, fun _ => rfl⟩
  · exact fun op _ hwrites => ⟨allows_unlocked hwrites.unlocked nofun (.write hwrites),
      fun _ => ⟨rfl, Stage.next_of_writes hwrites⟩⟩
  · rintro ck rfl -
    refine ⟨allows_unlocked rfl nofun (.find nofun), ?_⟩
    rintro found _ rfl
    refine ⟨⟨allows_unlocked rfl nofun .nonce, fun _ => rfl⟩, fun op hwrites => ?_⟩
    exact ⟨allows_unlocked hwrites.unlocked nofun (.write hwrites),
      fun _ => ⟨rfl, Stage.next_of_writes hwrites⟩⟩

theorem Stage.ask_some {x : Exchange} {pair : Tokens} (h : x.pair? = some pair) :
    ask x = .granted pair := by
  rw [ask, h]

theorem Stage.ask_none {x : Exchange} (h : x.pair? = none) : ask x = .finished := by
  rw [ask, h]

theorem ClientTask.obeys_request (b : StoreKind) (v : ClientTask) (grant : GrantKind) {form : Form}
    (hst : st ≠ .gone) (h : v.Allows client b st (.post form)) :
    (Client.request grant form).Obeys (v.stages client b) (fun owed' st' r => owed' = owed ∧
      match r with
      | .ok pair => st' = .granted pair
      | .error _ => st' = .finished) owed st := by
  refine ⟨allows_unlocked rfl hst h, fun x _ => ?_⟩
  change Program.Obeys _ _ (.step (.count _) fun _ => .ofExcept (x.tokens grant)) _ (Stage.ask x)
  cases hr : x.tokens grant with
  | ok pair =>
    rw [Stage.ask_some ((Exchange.pair?_eq_some grant).mpr hr)]
    exact ⟨allows_unlocked rfl nofun (.count _), fun _ _ => ⟨rfl, rfl⟩⟩
  | error e =>
    have hnone : x.pair? = none := by
      cases hx : x.pair? with
      | none => rfl
      | some pair =>
        rw [(Exchange.pair?_eq_some grant).mp hx] at hr
        cases hr
    rw [Stage.ask_none hnone]
    exact ⟨allows_unlocked rfl nofun (.count _), fun _ _ => ⟨rfl, rfl⟩⟩

def Stage.IsAfterAsking : Stage → Prop
  | .granted _ | .finished => True
  | _ => False

theorem ClientTask.obeys_persist (b : StoreKind) (v : ClientTask) (grant : GrantKind)
    (pair : Tokens) (credentials : Option Credentials) :
    ((client.on b).persist grant v.key pair credentials).Obeys (v.stages client b)
      (fun owed' st' _ => owed' = owed ∧ st'.IsAfterAsking) owed (.granted pair) := by
  refine ⟨allows_unlocked rfl nofun .now, fun now _ => ?_⟩
  have hexpiry : (Program.ofExcept (pair.expiresAt? now)).Obeys (v.stages client b)
      (fun owed' st' _ => owed' = owed ∧ st' = .granted pair) owed (.granted pair) :=
    Program.obeys_ofExcept ⟨rfl, rfl⟩
  refine hexpiry.bind ?_ ?_
  · rintro owed _ expiresAt ⟨rfl, rfl⟩
    have hsave : (b.store.save v.key pair credentials expiresAt).attempt.Obeys (v.stages client b)
        (fun owed' st' _ => owed' = owed ∧ st' = .finished) owed (.granted pair) :=
      (v.obeys_save b pair credentials expiresAt).attempt fun _ _ _ h => h
    refine hsave.bind ?_ fun _ _ _ h => ⟨h.1, h.2 ▸ trivial⟩
    rintro owed _ r ⟨rfl, rfl⟩
    cases r with
    | ok u => exact ⟨rfl, trivial⟩
    | error e =>
      refine ⟨allows_unlocked rfl nofun (.count _), fun _ _ => ?_⟩
      have hpolicy : (client.on b).policy = client.policy := rfl
      rw [hpolicy]
      cases client.policy <;> exact ⟨rfl, trivial⟩
  · rintro _ _ e ⟨rfl, rfl⟩
    exact ⟨rfl, trivial⟩

/-- How a program under a lock may end: it has loaded nothing, or gives out what it has loaded
unless that is due, or has asked for a pair. -/
inductive Stage.Closes (client : Client) (key : String) : Stage → Except Failure String → Prop
  | missing (r : Except Failure String) : Closes client key (.found none) r
  | failed (r : Except Failure String) : Closes client key (.reread none none) r
  | seen {e : StoredEntry} {now : Instant} {r : Except Failure String}
    (h : client.needsRefresh now e.expiresAt = false → r = usableResult key e.tokens.accessToken) :
    Closes client key (.reread (some e) (some now)) r
  | asked {st : Stage} (h : st.IsAfterAsking) (r : Except Failure String) : Closes client key st r

theorem Stage.Closes.ne_gone {key : String} {r : Except Failure String}
    (h : st.Closes client key r) : st ≠ .gone := by
  rintro rfl
  cases h with
  | asked h => exact h

theorem Stage.Closes.ends {key : String} {r : Except Failure String}
    (h : st.Closes client key r) : (ClientTask.accessToken key).Ends client st.leave r := by
  cases h with
  | missing => exact ⟨nofun, nofun, fun _ _ he => nomatch he⟩
  | failed => exact ⟨nofun, nofun, fun _ _ he => nomatch he⟩
  | @seen e now _ h =>
    refine ⟨nofun, nofun, ?_⟩
    rintro _ _ ⟨⟩
    exact ⟨now, rfl, h⟩
  | asked h =>
    cases st with
    | granted pair => exact ⟨nofun, nofun, fun _ _ he => nomatch he⟩
    | finished => exact ⟨nofun, nofun, fun _ _ he => nomatch he⟩
    | _ => exact h.elim

theorem Client.obeys_usable {d : Discipline Stage}
    {ends : List Op → Stage → Except Failure String → Prop} {key token : String}
    (h : ends owed st (usableResult key token)) : (usable key token).Obeys d ends owed st := by
  unfold usable
  rw [usableResult] at h
  split at h
  · next hempty =>
    rw [if_pos hempty]
    exact h
  · next htoken =>
    rw [if_neg htoken]
    exact h

theorem ClientTask.obeys_refreshed (b : StoreKind) (key : String) {e : StoredEntry} {now : Instant}
    (hdue : client.needsRefresh now e.expiresAt = true) :
    ((client.on b).refreshEntry key e >>= fun tokens => Client.usable key tokens.accessToken).Obeys
      ((ClientTask.accessToken key).stages client b)
      (fun owed' st' _ => owed' = owed ∧ st'.IsAfterAsking) owed
      (.reread (some e) (some now)) := by
  have hform : (ClientTask.accessToken key).Allows client b (.reread (some e) (some now))
      (.post (refreshForm e.tokens.refreshToken ((client.on b).resolve e.credentials))) :=
    .refresh rfl hdue _
  have hreread : Stage.reread (some e) (some now) ≠ .gone := nofun
  have hgrant : ((client.on b).refresh key e.tokens ((client.on b).resolve e.credentials)).Obeys
      ((ClientTask.accessToken key).stages client b)
      (fun owed' st' _ => owed' = owed ∧ st'.IsAfterAsking) owed
      (.reread (some e) (some now)) := by
    refine ((ClientTask.accessToken key).obeys_request b .refresh hreread hform).bind ?_ ?_
    · rintro owed _ pair ⟨rfl, rfl⟩
      exact (ClientTask.accessToken key).obeys_persist b .refresh pair none
    · rintro owed _ failure ⟨rfl, rfl⟩
      exact ⟨rfl, trivial⟩
  have hentry : ((client.on b).refreshEntry key e).Obeys
    ((ClientTask.accessToken key).stages client b)
      (fun owed' st' _ => owed' = owed ∧ st'.IsAfterAsking) owed
      (.reread (some e) (some now)) := hgrant.bind (fun _ _ _ h => h) fun _ _ _ h => h
  exact hentry.bind (fun _ _ _ h => Client.obeys_usable h) fun _ _ _ h => h

theorem ClientTask.obeys_judged (b : StoreKind) (key : String) (e : StoredEntry) :
    (((client.on b).isDue e).bind fun due => if due then
      (client.on b).refreshEntry key e >>= fun tokens => Client.usable key tokens.accessToken
      else Client.usable key e.tokens.accessToken).Obeys
        ((ClientTask.accessToken key).stages client b)
      (fun owed' st' r => owed' = owed ∧ st'.Closes client key r) owed
      (.reread (some e) none) := by
  refine ⟨allows_unlocked rfl nofun .now, fun now _ => ?_⟩
  change Program.Obeys _ _ (if client.needsRefresh now e.expiresAt = true then _ else _) owed
    (Stage.reread (some e) (some now))
  cases hdue : client.needsRefresh now e.expiresAt with
  | true =>
    rw [if_pos rfl]
    exact (obeys_refreshed b key hdue).mono fun owed st r h => ⟨h.1, .asked h.2 r⟩
  | false =>
    rw [if_neg Bool.false_ne_true]
    exact Client.obeys_usable ⟨rfl, .seen fun _ => rfl⟩

theorem ClientTask.obeys_refreshAgain (b : StoreKind) (key : String) :
    ((client.on b).refreshAgain key).Obeys ((ClientTask.accessToken key).stages client b)
      (fun owed' st' r => owed' = owed ∧ st'.Closes client key r) owed .entered := by
  have hentered : Stage.entered ≠ .gone := nofun
  refine ((ClientTask.accessToken key).obeys_load client b hentered).bind ?_ ?_
  · rintro owed st e ⟨rfl, hloaded⟩
    have hst : st = .reread (some e) none := by
      cases hloaded with
      | live h => simp only [Stage.find, Stage.look, Option.filter_some, h, Bool.not_false, if_true]
      | recalled => rfl
    rw [hst]
    exact obeys_judged b key e
  · rintro owed st failure ⟨rfl, hloaded⟩
    refine ⟨rfl, ?_⟩
    cases hloaded with
    | missing => exact .missing _
    | expired h =>
      simp only [Stage.find, Stage.look, Option.filter_some, h, Bool.not_true, Bool.false_eq_true,
        if_false]
      exact .failed _
    | refused => exact .failed _

theorem ClientTask.obeys_withSlot (b : StoreKind) (key : String) :
    (Client.withSlot key ((client.on b).refreshAgain key)).Obeys
      ((ClientTask.accessToken key).stages client b)
      (fun _ => (ClientTask.accessToken key).Ends client) [] .outside := by
  refine ⟨⟨⟨rfl, rfl⟩, nofun, .lock rfl nofun⟩, fun slot hslot => ?_⟩
  refine ⟨⟨⟨hslot.1, rfl⟩, nofun, .acquire slot⟩, fun _ _ => ?_⟩
  have hbody : ((client.on b).refreshAgain key).attempt.Obeys
      ((ClientTask.accessToken key).stages client b)
      (fun owed st r => owed = [.release slot, .retire slot, .forget slot] ∧
        ∃ result, r = .ok result ∧ st.Closes client key result)
      [.release slot, .retire slot, .forget slot] .entered :=
    (obeys_refreshAgain b key).attempt fun _ _ r h => ⟨h.1, r, rfl, h.2⟩
  refine hbody.bind ?_ ?_
  · rintro _ st result ⟨rfl, _, ⟨⟩, hcloses⟩
    have hends := hcloses.ends
    refine ⟨⟨⟨hslot.1, rfl⟩, hcloses.ne_gone, .lock rfl nofun⟩, fun _ _ => ?_⟩
    refine ⟨⟨⟨hslot.1, rfl⟩, hends.1, .lock rfl nofun⟩, fun _ _ => ?_⟩
    refine ⟨⟨⟨hslot.1, rfl⟩, hends.1, .lock rfl nofun⟩, fun _ _ => ?_⟩
    exact Program.obeys_ofExcept hends
  · rintro _ st e ⟨rfl, _, h, -⟩
    cases h

theorem ClientTask.obeys_accessToken (hmode : client.mode = .singleFlight) (b : StoreKind)
    (key : String) :
    ((client.on b).accessToken key).Obeys ((ClientTask.accessToken key).stages client b)
      (fun _ => (ClientTask.accessToken key).Ends client) [] .outside := by
  have houtside : Stage.outside ≠ .gone := nofun
  have hends : ∀ r, (ClientTask.accessToken key).Ends client .outside r :=
    fun r => ⟨nofun, nofun, fun _ _ he => nomatch he⟩
  have hload : ((client.on b).loadEntry key).Obeys ((ClientTask.accessToken key).stages client b)
      (fun owed st _ => owed = [] ∧ st = .outside) [] .outside := by
    refine ((ClientTask.accessToken key).obeys_load client b houtside).mono fun owed st r h => ?_
    exact ⟨h.1, by cases h.2 <;> rfl⟩
  refine hload.bind ?_ fun _ _ _ h => h.2 ▸ hends _
  rintro _ _ e ⟨rfl, rfl⟩
  have hdue : ((client.on b).isDue e).Obeys ((ClientTask.accessToken key).stages client b)
      (fun owed st _ => owed = [] ∧ st = .outside) [] .outside :=
    ⟨allows_unlocked rfl houtside .now, fun _ _ => ⟨rfl, rfl⟩⟩
  refine hdue.bind ?_ fun _ _ _ h => h.2 ▸ hends _
  rintro _ _ due ⟨rfl, rfl⟩
  have hmode' : (client.on b).mode = .singleFlight := hmode
  rw [hmode']
  split
  · exact obeys_withSlot b key
  · exact Client.obeys_usable (hends _)

theorem ClientTask.obeys_login (b : StoreKind) (username password : String)
    (credentials : Credentials) :
    Program.Obeys ((ClientTask.login username password credentials).stages client b)
      (fun _ => (ClientTask.login username password credentials).Ends client)
      ((ClientTask.login username password credentials).program (client.on b)) [] .outside := by
  have hpost : (ClientTask.login username password credentials).Allows client b .outside
      (.post (passwordForm username password credentials)) := by
    refine .login ?_ _
    rintro key ⟨⟩
  have houtside : Stage.outside ≠ .gone := nofun
  have hlogin : ((client.on b).login username password credentials).Obeys
      ((ClientTask.login username password credentials).stages client b) (fun _ _ _ => True) []
      .outside := by
    unfold Client.login
    split
    · exact trivial
    · refine ((ClientTask.login username password credentials).obeys_request b .password houtside
        hpost).bind ?_ fun _ _ _ _ => trivial
      rintro owed _ pair ⟨rfl, rfl⟩
      exact ((ClientTask.login username password credentials).obeys_persist b .password pair
        (some credentials)).mono fun _ _ _ _ => trivial
  exact hlogin.bind (fun _ _ _ _ => trivial) fun _ _ _ _ => trivial

theorem Client.obeys_stages (hmode : client.mode = .singleFlight) (b : StoreKind)
    (calls : List ClientTask) (w : World) :
    ((client.on b).pool calls w).Obeys (fun i => (callAt calls i).stages client b)
      (fun i _ => (callAt calls i).Ends client) fun _ => .outside := by
  refine obeys_pool fun i v hv => ?_
  rw [callAt_eq hv]
  cases v with
  | accessToken key => exact ClientTask.obeys_accessToken hmode b key
  | login username password credentials =>
    exact ClientTask.obeys_login b username password credentials

end
end TokenKeeper
