import TokenKeeper.Decorator
import TokenKeeper.Proofs.RelatedRuns
import TokenKeeper.Proofs.Store.Sessions
import TokenKeeper.Proofs.Tasks

/-!
# A client on different back ends

A client sees of an entry its two tokens, its expiry, and a registration that is complete. All back
ends agree on these, so a client on one of them does what it does on any other: it gives the same
answers, sends the same forms and counts the same.
-/
namespace TokenKeeper

inductive StoreKind
  | memory
  | documents
  | sealedDocuments (key : CipherKey)

namespace StoreKind

def store : StoreKind → TokenStore
  | .memory => .memory
  | .documents => .documents
  | .sealedDocuments key => .sealedDocuments key

def shown : StoreKind → String → StoredEntry → StoredEntry
  | .documents => TokenDocument.shown
  | _ => fun _ e => e

/-- A world in which a back end holds these entries. -/
def image : StoreKind → Dict StoredEntry → World → Prop
  | .memory => fun m w => w.memory = m
  | .documents => fun m w => w.Holds (TokenDocument.holdings m)
  | .sealedDocuments key => fun m w => ∃ docs, w.Holds docs ∧ SealedDocument.Seals key m docs

def Fresh : StoreKind → World → Prop
  | .memory => fun w => w.memory = []
  | _ => World.EmptyCollection

theorem keeps (b : StoreKind) : b.store.Keeps b.shown b.image := by
  cases b with
  | memory => exact TokenStore.memory_keeps
  | documents => exact TokenStore.documents_keeps
  | sealedDocuments key => exact TokenStore.sealedDocuments_keeps key

theorem Fresh.image {b : StoreKind} {w : World} (h : b.Fresh w) : b.image [] w := by
  cases b with
  | memory => exact h
  | documents => exact World.EmptyCollection.holds h
  | sealedDocuments key => exact ⟨_, World.EmptyCollection.holds h, fun _ => rfl⟩

end StoreKind

/-! ### What a client sees of an entry -/

def Credentials.complete? (credentials : Option Credentials) : Option (String × String) :=
  (credentials.filter isComplete).map fun c => (c.clientId, c.clientSecret)

/-- Two entries that a client cannot tell apart. -/
structure StoredEntry.LooksLike (e e' : StoredEntry) : Prop where
  accessToken : e.tokens.accessToken = e'.tokens.accessToken
  refreshToken : e.tokens.refreshToken = e'.tokens.refreshToken
  expiresAt : e.expiresAt = e'.expiresAt
  registration : Credentials.complete? e.credentials = Credentials.complete? e'.credentials

theorem TokenDocument.shown_looksLike (key : String) (e : StoredEntry) :
    (shown key e).LooksLike e := by
  refine ⟨rfl, rfl, rfl, ?_⟩
  rw [shown]
  cases e.credentials with
  | none => rfl
  | some c =>
    rw [Credentials.complete?, Credentials.complete?]
    cases hc : c.isComplete with
    | true =>
      have hkey : (Credentials.mk key c.clientId c.clientSecret).isComplete = true := hc
      rw [Option.filter_some, hc, if_pos rfl, Option.map_some, Option.filter_some, hkey]
      rfl
    | false =>
      rw [Option.filter_some, hc]
      rfl

theorem StoreKind.shown_looksLike (b : StoreKind) (key : String) (e : StoredEntry) :
    (b.shown key e).LooksLike e := by
  cases b with
  | memory => exact ⟨rfl, rfl, rfl, rfl⟩
  | documents => exact TokenDocument.shown_looksLike key e
  | sealedDocuments key => exact ⟨rfl, rfl, rfl, rfl⟩

theorem Client.refreshForm_resolve (client : Client) {c c' : Option Credentials}
    (h : Credentials.complete? c = Credentials.complete? c') (refreshToken : String) :
    refreshForm refreshToken (client.resolve c) = refreshForm refreshToken (client.resolve c') := by
  have hform : ∀ c, refreshForm refreshToken (client.resolve c) =
      match Credentials.complete? c with
      | some (id, secret) => refreshForm refreshToken ⟨"", id, secret⟩
      | none => refreshForm refreshToken client.defaults := by
    intro c
    cases c with
    | none => rfl
    | some c =>
      rw [resolve, Credentials.complete?, Option.filter_some]
      cases c.isComplete <;> rfl
  rw [hform c, hform c', h]

/-! ### Steps outside of the stores -/

theorem World.sameInside_perform {op : Op} (hop : op.isOuter = true) (w : World) :
    w.SameInside (World.perform op w).2 := by
  cases op <;> first | contradiction | exact ⟨rfl, rfl, rfl, rfl, rfl⟩

theorem World.SameOutside.perform {op : Op} (hop : op.isOuter = true) {w w' : World}
    (h : w.SameOutside w') : (World.perform op w').1 = (World.perform op w).1 ∧
      (World.perform op w).2.SameOutside (World.perform op w').2 := by
  obtain ⟨clock, disk, database, collection, memory, nonces, drawn, endpoint, posts, host, sent,
    counted, flight, fault⟩ := w
  obtain ⟨clock', disk', database', collection', memory', nonces', drawn', endpoint', posts', host',
    sent', counted', flight', fault'⟩ := w'
  obtain ⟨hclock, hendpoint, hposts, hhost, hsent, hcounted, hflight⟩ := h
  cases hclock
  cases hendpoint
  cases hposts
  cases hhost
  cases hsent
  cases hcounted
  cases hflight
  cases op <;> first | contradiction | exact ⟨rfl, rfl, rfl, rfl, rfl, rfl, rfl, rfl⟩

/-! ### Worlds with the same entries -/

/-- Two worlds that differ in what keeps the entries, but not in the entries. -/
def StoreKind.SameEntries (a b : StoreKind) (w w' : World) : Prop :=
  ∃ m, a.image m w ∧ b.image m w' ∧ w.SameOutside w'

section

variable {a b : StoreKind}

theorem related_outer (op : Op) (hop : op.isOuter = true) :
    Related (a.SameEntries b) Eq (Program.perform op) (Program.perform op) := by
  refine Related.perform fun w w' ⟨m, ha, hb, hout⟩ => ?_
  obtain ⟨hanswer, hafter⟩ := hout.perform hop
  exact ⟨hanswer.symm, m, a.keeps.frame ha (World.sameInside_perform hop w),
    b.keeps.frame hb (World.sameInside_perform hop w'), hafter⟩

theorem related_load (key : String) :
    Related (a.SameEntries b) StoredEntry.LooksLike (a.store.load key) (b.store.load key) := by
  rintro w w' ⟨m, ha, hb, hout⟩
  obtain ⟨v, hrun, himage, hv⟩ := a.keeps.load ha key
  obtain ⟨v', hrun', himage', hv'⟩ := b.keeps.load hb key
  rw [hout.clock] at hrun' himage'
  rw [hrun, hrun']
  refine ⟨?_, _, himage, himage', ?_⟩
  · cases (Memory.load m w.clock key).1 with
    | error e => rfl
    | ok e =>
      have hl := a.shown_looksLike key e
      have hr := b.shown_looksLike key e
      exact ⟨hl.accessToken.trans hr.accessToken.symm, hl.refreshToken.trans hr.refreshToken.symm,
        hl.expiresAt.trans hr.expiresAt.symm, hl.registration.trans hr.registration.symm⟩
  · exact hv.symm.trans (hout.trans hv')

theorem related_save (key : String) (tokens : Tokens) (credentials : Option Credentials)
    (expiresAt : Instant) :
    Related (a.SameEntries b) Eq (a.store.save key tokens credentials expiresAt)
      (b.store.save key tokens credentials expiresAt) := by
  rintro w w' ⟨m, ha, hb, hout⟩
  obtain ⟨v, hrun, himage, hv⟩ := a.keeps.save ha key tokens credentials expiresAt
  obtain ⟨v', hrun', himage', hv'⟩ := b.keeps.save hb key tokens credentials expiresAt
  rw [hrun, hrun']
  exact ⟨rfl, _, himage, himage', hv.symm.trans (hout.trans hv')⟩

theorem StoreKind.SameEntries.clock {w w' : World} (h : a.SameEntries b w w') (now : Instant) :
    a.SameEntries b { w with clock := now } { w' with clock := now } := by
  obtain ⟨m, ha, hb, hout⟩ := h
  exact ⟨m, a.keeps.frame ha ⟨rfl, rfl, rfl, rfl, rfl⟩,
    b.keeps.frame hb ⟨rfl, rfl, rfl, rfl, rfl⟩,
    ⟨rfl, hout.endpoint, hout.posts, hout.host, hout.sent, hout.counted, hout.flight⟩⟩

/-! ### The operations of a client -/

namespace Client

variable (client : Client)

def on (b : StoreKind) : Client := { client with store := some b.store }

theorem related_request (grant : GrantKind) (form : Form) :
    Related (a.SameEntries b) Eq (request grant form) (request grant form) := by
  refine Related.bind (related_outer (.post form) rfl) ?_
  rintro answer _ rfl
  refine Related.bind (related_outer (.count _) rfl) ?_
  rintro _ _ -
  exact Related.ofExcept (sameEnd_self _)

theorem related_persist (grant : GrantKind) (key : String) (tokens : Tokens)
    (credentials : Option Credentials) :
    Related (a.SameEntries b) Eq ((client.on a).persist grant key tokens credentials)
      ((client.on b).persist grant key tokens credentials) := by
  refine Related.bind (related_outer .now rfl) ?_
  rintro now _ rfl
  refine Related.bind (Related.ofExcept (sameEnd_self _)) ?_
  rintro expiresAt _ rfl
  refine Related.bind (related_save key tokens credentials expiresAt).attempt ?_
  intro r s hend
  cases hend.eq
  cases r with
  | ok u => exact Related.done rfl
  | error e =>
    refine Related.bind (related_outer (.count (.persistFailure grant)) rfl) ?_
    rintro _ _ -
    have ha : (client.on a).policy = client.policy := rfl
    have hb : (client.on b).policy = client.policy := rfl
    rw [ha, hb]
    cases client.policy with
    | strict => exact Related.fail e
    | bestEffort => exact Related.done rfl

theorem related_login (username password : String) (credentials : Credentials) :
    Related (a.SameEntries b) Eq ((client.on a).login username password credentials)
      ((client.on b).login username password credentials) := by
  unfold login
  split
  · exact Related.fail .emptyCallerKey
  · refine Related.bind (related_request _ _) ?_
    rintro tokens _ rfl
    exact client.related_persist _ _ _ _

theorem related_refresh (key : String) {tokens tokens' : Tokens} {c c' : Credentials}
    (h : refreshForm tokens.refreshToken c = refreshForm tokens'.refreshToken c') :
    Related (a.SameEntries b) Eq ((client.on a).refresh key tokens c)
      ((client.on b).refresh key tokens' c') := by
  unfold refresh
  rw [h]
  refine Related.bind (related_request _ _) ?_
  rintro granted _ rfl
  exact client.related_persist _ _ _ _

theorem related_refreshEntry (key : String) {e e' : StoredEntry} (h : e.LooksLike e') :
    Related (a.SameEntries b) Eq ((client.on a).refreshEntry key e)
      ((client.on b).refreshEntry key e') := by
  have hform : refreshForm e.tokens.refreshToken ((client.on a).resolve e.credentials) =
      refreshForm e'.tokens.refreshToken ((client.on b).resolve e'.credentials) := by
    rw [h.refreshToken]
    exact client.refreshForm_resolve h.registration _
  refine Related.bind (client.related_refresh key hform) ?_
  rintro granted _ rfl
  exact Related.done rfl

theorem related_isDue {e e' : StoredEntry} (h : e.LooksLike e') :
    Related (a.SameEntries b) Eq ((client.on a).isDue e) ((client.on b).isDue e') := by
  refine Related.bind (related_outer .now rfl) ?_
  rintro now _ rfl
  exact Related.done (by rw [h.expiresAt]; rfl)

theorem related_usable (key accessToken : String) :
    Related (a.SameEntries b) Eq (usable key accessToken) (usable key accessToken) := by
  unfold usable
  split
  · exact Related.fail _
  · exact Related.done rfl

theorem related_refreshed (key : String) {e e' : StoredEntry} (h : e.LooksLike e') :
    Related (a.SameEntries b) Eq
      ((client.on a).refreshEntry key e >>= fun tokens => usable key tokens.accessToken)
      ((client.on b).refreshEntry key e' >>= fun tokens => usable key tokens.accessToken) := by
  refine Related.bind (client.related_refreshEntry key h) ?_
  rintro tokens _ rfl
  exact related_usable key tokens.accessToken

theorem related_refreshAgain (key : String) :
    Related (a.SameEntries b) Eq ((client.on a).refreshAgain key)
      ((client.on b).refreshAgain key) := by
  refine Related.bind (related_load key) ?_
  intro e e' h
  refine Related.bind (client.related_isDue h) ?_
  rintro due _ rfl
  cases due with
  | true => exact client.related_refreshed key h
  | false =>
    rw [if_neg (by decide), if_neg (by decide), h.accessToken]
    exact related_usable key _

theorem related_withSlot (key : String) {p q : Program String}
    (h : Related (a.SameEntries b) Eq p q) :
    Related (a.SameEntries b) Eq (withSlot key p) (withSlot key q) := by
  refine Related.bind (related_outer (.checkout key) rfl) ?_
  rintro slot _ rfl
  refine Related.bind (related_outer (.acquire slot) rfl) ?_
  rintro _ _ -
  refine Related.bind h.attempt ?_
  intro r s hend
  cases hend.eq
  refine Related.bind (related_outer (.release slot) rfl) ?_
  rintro _ _ -
  refine Related.bind (related_outer (.retire slot) rfl) ?_
  rintro _ _ -
  refine Related.bind (related_outer (.forget slot) rfl) ?_
  rintro _ _ -
  exact Related.ofExcept (sameEnd_self r)

theorem related_accessToken (key : String) :
    Related (a.SameEntries b) Eq ((client.on a).accessToken key)
      ((client.on b).accessToken key) := by
  refine Related.bind (related_load key) ?_
  intro e e' h
  refine Related.bind (client.related_isDue h) ?_
  rintro due _ rfl
  cases due with
  | true =>
    have ha : (client.on a).mode = client.mode := rfl
    have hb : (client.on b).mode = client.mode := rfl
    rw [if_pos rfl, if_pos rfl, ha, hb]
    cases client.mode with
    | independent => exact client.related_refreshed key h
    | singleFlight => exact related_withSlot key (client.related_refreshAgain key)
  | false =>
    rw [if_neg (by decide), if_neg (by decide), h.accessToken]
    exact related_usable key _

theorem related_apply (key : String) (host : Option String) (headers : Headers) :
    Related (a.SameEntries b) Eq ((client.on a).apply key host headers)
      ((client.on b).apply key host headers) := by
  have hprotects : (client.on a).protects host = (client.on b).protects host := rfl
  unfold apply
  rw [hprotects]
  split
  · refine Related.bind (client.related_accessToken key).attempt ?_
    intro r s hend
    cases hend.eq
    cases r with
    | error e => exact Related.done rfl
    | ok token =>
      dsimp only
      cases bearer token <;> exact Related.done rfl
  · exact Related.done rfl

end Client

end

/-! ### Sessions of a client -/

inductive ClientCall
  | login (username password : String) (credentials : Credentials)
  | refresh (key : String) (tokens : Tokens) (credentials : Credentials)
  | accessToken (key : String)
  | apply (key : String) (host : Option String) (headers : Headers)
  | clock (now : Instant)

inductive ClientAnswer
  | granted (result : Except Failure Granted)
  | token (result : Except Failure String)
  | headers (result : Except Failure (Except Failure Unit × Headers))
  | set

namespace Client

def answer (client : Client) : ClientCall → World → ClientAnswer × World
  | .login username password credentials, w =>
    let (result, w) := (client.login username password credentials).run World.perform w
    (.granted result, w)
  | .refresh key tokens credentials, w =>
    let (result, w) := (client.refresh key tokens credentials).run World.perform w
    (.granted result, w)
  | .accessToken key, w =>
    let (result, w) := (client.accessToken key).run World.perform w
    (.token result, w)
  | .apply key host headers, w =>
    let (result, w) := (client.apply key host headers).run World.perform w
    (.headers result, w)
  | .clock now, w => (.set, { w with clock := now })

def session (client : Client) : List ClientCall → World →
    List (ClientAnswer × List Form × List Counter)
  | [], _ => []
  | call :: rest, w =>
    let (answer, w) := client.answer call w
    (answer, w.posts, w.counted) :: client.session rest w

theorem answer_on (client : Client) {a b : StoreKind} {w w' : World} (h : a.SameEntries b w w')
    (call : ClientCall) : ((client.on a).answer call w).1 = ((client.on b).answer call w').1 ∧
      a.SameEntries b ((client.on a).answer call w).2 ((client.on b).answer call w').2 := by
  cases call with
  | login username password credentials =>
    obtain ⟨hend, hentries⟩ := client.related_login username password credentials w w' h
    exact ⟨congrArg ClientAnswer.granted hend.eq, hentries⟩
  | refresh key tokens credentials =>
    obtain ⟨hend, hentries⟩ := client.related_refresh key rfl w w' h
    exact ⟨congrArg ClientAnswer.granted hend.eq, hentries⟩
  | accessToken key =>
    obtain ⟨hend, hentries⟩ := client.related_accessToken key w w' h
    exact ⟨congrArg ClientAnswer.token hend.eq, hentries⟩
  | apply key host headers =>
    obtain ⟨hend, hentries⟩ := client.related_apply key host headers w w' h
    exact ⟨congrArg ClientAnswer.headers hend.eq, hentries⟩
  | clock now => exact ⟨rfl, h.clock now⟩

theorem session_of_sameEntries (client : Client) {a b : StoreKind} {w w' : World}
    (h : a.SameEntries b w w') (calls : List ClientCall) :
    (client.on a).session calls w = (client.on b).session calls w' := by
  induction calls generalizing w w' with
  | nil => rfl
  | cons call rest ih =>
    obtain ⟨hanswer, hentries⟩ := client.answer_on h call
    obtain ⟨m, ha, hb, hout⟩ := hentries
    simp only [session]
    rw [hanswer, ih ⟨m, ha, hb, hout⟩, hout.posts, hout.counted]

/-- A client does the same on every back end. -/
theorem session_on (client : Client) {a b : StoreKind} {w w' : World} (ha : a.Fresh w)
    (hb : b.Fresh w') (h : w.SameOutside w') (calls : List ClientCall) :
    (client.on a).session calls w = (client.on b).session calls w' :=
  client.session_of_sameEntries ⟨[], ha.image, hb.image, h⟩ calls

def trialWorld : World :=
  { World.isolated .epoch .empty with
    endpoint := .scripted [.answer 200
      (some (Utf8.encode (Tokens.json ⟨"at_1", "rt_1", 30⟩).compact))] }

theorem session_half :
    ((new ⟨"default", "id", "secret"⟩).on .memory).session
        [.login "user" "pass" ⟨"u1", "cid", ""⟩, .accessToken "u1"] trialWorld =
      ((new ⟨"default", "id", "secret"⟩).on (.sealedDocuments TokenStore.trialKey)).session
        [.login "user" "pass" ⟨"u1", "cid", ""⟩, .accessToken "u1"] trialWorld := by
  have hmemory : StoreKind.memory.Fresh trialWorld := rfl
  have hsealed : (StoreKind.sealedDocuments TokenStore.trialKey).Fresh trialWorld :=
    ⟨rfl, [], rfl, fun _ => rfl⟩
  exact session_on _ hmemory hsealed (World.SameOutside.refl trialWorld) _

end Client
end TokenKeeper
