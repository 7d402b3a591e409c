import TokenKeeper.Proofs.Instants
import TokenKeeper.Proofs.Store.Pairs
import TokenKeeper.Proofs.Store.Resealing

/-!
# What grants change

A login and a refresh are the same up to the form that asks for the pair and what is stored with it.
After the answer of the endpoint come the expiry, the save and the policy for a save that fails; a
run is written out as these stages. So it can be read off what is stored after each way to end.
-/
namespace TokenKeeper

inductive GrantCall
  | login (username password : String) (credentials : Credentials)
  | refresh (key : String) (tokens : Tokens) (credentials : Credentials)

namespace GrantCall

def kind : GrantCall → GrantKind
  | .login .. => .password
  | .refresh .. => .refresh

def key : GrantCall → String
  | .login _ _ credentials => credentials.callerKey
  | .refresh key _ _ => key

def form : GrantCall → Form
  | .login username password credentials => passwordForm username password credentials
  | .refresh _ tokens credentials => refreshForm tokens.refreshToken credentials

def registration : GrantCall → Option Credentials
  | .login _ _ credentials => some credentials
  | .refresh .. => none

def isRefused : GrantCall → Bool
  | .login _ _ credentials => credentials.callerKey = ""
  | .refresh .. => false

end GrantCall

def World.asked (w : World) (grant : GrantKind) (form : Form) : World :=
  { w with
    endpoint := w.endpoint.respond.2
    posts := form :: w.posts
    counted := .request grant (.ofResult (w.endpoint.respond.1.tokens grant)) :: w.counted }

theorem World.sameInside_asked (w : World) (grant : GrantKind) (form : Form) :
    w.SameInside (w.asked grant form) := ⟨rfl, rfl, rfl, rfl, rfl⟩

namespace Client

variable (client : Client) (b : Option StoreKind) (call : GrantCall) (w : World)

def ask : GrantCall → Program Granted
  | .login username password credentials => client.login username password credentials
  | .refresh key tokens credentials => client.refresh key tokens credentials

def backed : Client := { client with store := b.map (·.store) }

/-! ### Runs by their stages -/

theorem run_request (grant : GrantKind) (form : Form) :
    (request grant form).run World.perform w =
      (w.endpoint.respond.1.tokens grant, w.asked grant form) := by
  change (Program.ofExcept (w.endpoint.respond.1.tokens grant)).run World.perform
    (w.asked grant form) = _
  cases w.endpoint.respond.1.tokens grant <;> rfl

def afterSave (grant : GrantKind) (tokens : Tokens) (expiresAt : Instant) :
    Except Failure Unit × World → Except Failure Granted × World
  | (.ok (), w) => (.ok ⟨tokens, expiresAt, true⟩, w)
  | (.error e, w) =>
    (match client.policy with
      | .strict => .error e
      | .bestEffort => .ok ⟨tokens, expiresAt, false⟩,
      { w with counted := .persistFailure grant :: w.counted })

theorem run_persist_on (b : StoreKind) (grant : GrantKind) (key : String) (tokens : Tokens)
    (credentials : Option Credentials) :
    ((client.on b).persist grant key tokens credentials).run World.perform w =
      match tokens.expiresAt? w.clock with
      | .error e => (.error e, w)
      | .ok expiresAt => client.afterSave grant tokens expiresAt
          ((b.store.save key tokens credentials expiresAt).run World.perform w) := by
  change ((Program.ofExcept (tokens.expiresAt? w.clock)).bind _).run World.perform w = _
  cases tokens.expiresAt? w.clock with
  | error e => rfl
  | ok expiresAt =>
    change ((b.store.save key tokens credentials expiresAt).attempt.bind _).run World.perform w = _
    rw [Program.run_bind, Program.run_attempt]
    simp only
    have hpolicy : (client.on b).policy = client.policy := rfl
    generalize (b.store.save key tokens credentials expiresAt).run World.perform w = saved
    obtain ⟨e | u, w'⟩ := saved
    · simp only [hpolicy, afterSave]
      cases client.policy <;> rfl
    · rfl

theorem run_persist_none (grant : GrantKind) (key : String) (tokens : Tokens)
    (credentials : Option Credentials) :
    ((client.backed none).persist grant key tokens credentials).run World.perform w =
      match tokens.expiresAt? w.clock with
      | .error e => (.error e, w)
      | .ok expiresAt => (.ok ⟨tokens, expiresAt, false⟩, w) := by
  change ((Program.ofExcept (tokens.expiresAt? w.clock)).bind _).run World.perform w = _
  cases tokens.expiresAt? w.clock <;> rfl

theorem ask_eq_request (hcall : call.isRefused = false) : client.ask call =
    (request call.kind call.form).bind fun tokens =>
      client.persist call.kind call.key tokens call.registration := by
  cases call with
  | login username password credentials =>
    have hkey : ¬ credentials.callerKey = "" := of_decide_eq_false hcall
    simp only [ask, login, if_neg hkey]
    rfl
  | refresh key tokens credentials => rfl

theorem ask_eq_refused (hcall : call.isRefused = true) :
    client.ask call = .fail .emptyCallerKey := by
  cases call with
  | login username password credentials => exact if_pos (of_decide_eq_true hcall)
  | refresh key tokens credentials => cases hcall

theorem run_ask (hcall : call.isRefused = false) : (client.ask call).run World.perform w =
    match w.endpoint.respond.1.tokens call.kind with
    | .error e => (.error e, w.asked call.kind call.form)
    | .ok tokens => (client.persist call.kind call.key tokens call.registration).run World.perform
        (w.asked call.kind call.form) := by
  rw [ask_eq_request client call hcall, Program.run_bind, run_request]
  cases w.endpoint.respond.1.tokens call.kind <;> rfl

theorem run_ask_refused (hcall : call.isRefused = true) :
    (client.ask call).run World.perform w = (.error .emptyCallerKey, w) := by
  rw [ask_eq_refused client call hcall]
  rfl

end Client

/-! ### What is stored in the end -/

namespace StoreKind

variable {b : StoreKind} {w : World}

/-- The pair of a call is granted, and its save fails. -/
def SaveFails (b : StoreKind) (call : GrantCall) (w : World) : Prop :=
  ∃ tokens expiresAt e, call.isRefused = false ∧
    w.endpoint.respond.1.tokens call.kind = .ok tokens ∧
    tokens.expiresAt? w.clock = .ok expiresAt ∧
    ((b.store.save call.key tokens call.registration expiresAt).run World.perform
      (w.asked call.kind call.form)).1 = .error e

end StoreKind

/-- How a call may end: nothing that is stored has changed, or the pair that was granted is stored.
A save that fails shows in the result as the policy has it. -/
inductive GrantCall.Ended (policy : PersistPolicy) (b : Option StoreKind) (call : GrantCall)
    (w w' : World) : Except Failure Granted → Prop
  | failed (e : Failure) (hinside : w.SameInside w') : Ended policy b call w w' (.error e)
  | kept (tokens : Tokens) (expiresAt : Instant) (hinside : w.SameInside w')
    (hpolicy : b = none ∨ policy = .bestEffort) :
    Ended policy b call w w' (.ok ⟨tokens, expiresAt, false⟩)
  | stored {kind : StoreKind} {tokens : Tokens} {expiresAt : Instant} (hb : b = some kind)
    (htokens : w.endpoint.respond.1.tokens call.kind = .ok tokens)
    (hexpires : tokens.expiresAt? w.clock = .ok expiresAt)
    (hsave : (kind.store.save call.key tokens call.registration expiresAt).run World.perform
      (w.asked call.kind call.form) = (.ok (), w')) :
    Ended policy b call w w' (.ok ⟨tokens, expiresAt, true⟩)

/-- What is stored under the key of a call that has reported to have stored its pair. -/
structure GrantCall.Persisted (call : GrantCall) (kind : StoreKind) (w w' : World) (g : Granted) :
    Prop where
  granted : w.endpoint.respond.1.tokens call.kind = .ok g.tokens
  expires : w.clock.addSeconds? (g.tokens.expiresIn.toInt - 30) = some g.expiresAt
  stores : kind.SetsPair w call.key → kind.StoresPair w' call.key g.tokens g.expiresAt
  holds : kind.SetsPair w call.key → kind.ReadsRegistration w' call.key →
    kind.HoldsPair w' call.key g.tokens g.expiresAt
  reached : kind.Reached w → kind.HoldsPair w' call.key g.tokens g.expiresAt
  others : ∀ other, other ≠ call.key → World.SameUnder other w w'

theorem GrantCall.persisted_of_save {call : GrantCall} {kind : StoreKind} {w w' : World}
    {tokens : Tokens} {expiresAt : Instant}
    (htokens : w.endpoint.respond.1.tokens call.kind = .ok tokens)
    (hexpires : tokens.expiresAt? w.clock = .ok expiresAt)
    (hsave : (kind.store.save call.key tokens call.registration expiresAt).run World.perform
      (w.asked call.kind call.form) = (.ok (), w')) :
    call.Persisted kind w w' ⟨tokens, expiresAt, true⟩ := by
  have hasked := w.sameInside_asked call.kind call.form
  constructor
  case granted => exact htokens
  case expires => exact Tokens.addSeconds?_of_expiresAt? hexpires
  case stores => exact fun hset => (StoreKind.storesPair_of_save (hset.congr hasked) hsave).1
  case holds => exact fun hset => (StoreKind.storesPair_of_save (hset.congr hasked) hsave).2
  case reached =>
    intro hreached
    obtain ⟨m, hm⟩ := hreached.contents
    exact StoreKind.holdsPair_of_save (StoreKind.image_of_save (hm.congr hasked) hsave)
  case others =>
    exact fun other hne => (hasked.sameUnder other).trans (StoreKind.sameUnder_of_save hsave hne)

namespace Client

variable (client : Client) (b : Option StoreKind) (call : GrantCall) (w : World)

theorem ended_afterSave {kind : StoreKind} {tokens : Tokens} {expiresAt : Instant}
    (htokens : w.endpoint.respond.1.tokens call.kind = .ok tokens)
    (hexpires : tokens.expiresAt? w.clock = .ok expiresAt) {saved : Except Failure Unit × World}
    (hsave : (kind.store.save call.key tokens call.registration expiresAt).run World.perform
      (w.asked call.kind call.form) = saved) :
    call.Ended client.policy (some kind) w (client.afterSave call.kind tokens expiresAt saved).2
      (client.afterSave call.kind tokens expiresAt saved).1 := by
  obtain ⟨result, w'⟩ := saved
  obtain ⟨-, hsaved⟩ := kind.saved_save call.key tokens call.registration expiresAt
    (w.asked call.kind call.form)
  rw [hsave] at hsaved
  cases hsaved with
  | failed e hinside =>
    -- What is counted for the failure lies outside of the stores.
    have hcounted : w.SameInside { w' with counted := .persistFailure call.kind :: w'.counted } :=
      ((w.sameInside_asked call.kind call.form).trans hinside).trans ⟨rfl, rfl, rfl, rfl, rfl⟩
    cases hpolicy : client.policy with
    | strict =>
      simp only [afterSave, hpolicy]
      exact .failed e hcounted
    | bestEffort =>
      simp only [afterSave, hpolicy]
      exact .kept tokens expiresAt hcounted (Or.inr rfl)
  | done => exact .stored rfl htokens hexpires hsave

theorem ended_ask : call.Ended client.policy b w
    (((client.backed b).ask call).run World.perform w).2
    (((client.backed b).ask call).run World.perform w).1 := by
  have hasked := w.sameInside_asked call.kind call.form
  cases hcall : call.isRefused with
  | true =>
    rw [run_ask_refused _ _ _ hcall]
    exact .failed .emptyCallerKey (.refl w)
  | false =>
    rw [run_ask _ _ _ hcall]
    cases htokens : w.endpoint.respond.1.tokens call.kind with
    | error e => exact .failed e hasked
    | ok tokens =>
      cases b with
      | none =>
        simp only [run_persist_none]
        split
        · exact .failed _ hasked
        · exact .kept tokens _ hasked (Or.inl rfl)
      | some kind =>
        change call.Ended client.policy (some kind) w
          (((client.on kind).persist _ _ _ _).run World.perform _).2
          (((client.on kind).persist _ _ _ _).run World.perform _).1
        rw [run_persist_on]
        split
        · exact .failed _ hasked
        · next hexpires => exact client.ended_afterSave call w htokens hexpires rfl

theorem run_ask_policy (hsave : ∀ kind, b = some kind → ¬ kind.SaveFails call w)
    (policy : PersistPolicy) :
    ((({ client with policy } : Client).backed b).ask call).run World.perform w =
      ((client.backed b).ask call).run World.perform w := by
  cases hcall : call.isRefused with
  | true => rw [run_ask_refused _ _ _ hcall, run_ask_refused _ _ _ hcall]
  | false =>
    rw [run_ask _ _ _ hcall, run_ask _ _ _ hcall]
    cases htokens : w.endpoint.respond.1.tokens call.kind with
    | error e => rfl
    | ok tokens =>
      cases b with
      | none => simp only [run_persist_none]
      | some kind =>
        change ((({ client with policy } : Client).on kind).persist _ _ _ _).run World.perform _ =
          ((client.on kind).persist _ _ _ _).run World.perform _
        rw [run_persist_on, run_persist_on]
        cases hexpires : tokens.expiresAt? (w.asked call.kind call.form).clock with
        | error e => rfl
        | ok expiresAt =>
          simp only
          cases hrun : (kind.store.save call.key tokens call.registration expiresAt).run
              World.perform (w.asked call.kind call.form) with
          | mk result w' =>
            cases result with
            | ok u => rfl
            | error e =>
              have hfails : kind.SaveFails call w :=
                ⟨tokens, expiresAt, e, hcall, htokens, hexpires, by rw [hrun]⟩
              exact absurd hfails (hsave kind rfl)

/-- Logins and refreshes change what is stored exactly when they report it. What is stored then is
the granted pair, whatever was stored before, and the other keys are as they were. -/
theorem ask_reports : ∃ r w', ((client.backed b).ask call).run World.perform w = (r, w') ∧
    ((∀ g, r = .ok g → g.persisted = false) → w.SameInside w') ∧
    (∀ g, r = .ok g → g.persisted = true → ∃ kind, b = some kind ∧ call.Persisted kind w w' g) ∧
    (client.policy = .strict → b ≠ none → ∀ g, r = .ok g → g.persisted = true) ∧
    ((∀ kind, b = some kind → ¬ kind.SaveFails call w) → ∀ policy,
      ((({ client with policy } : Client).backed b).ask call).run World.perform w = (r, w')) := by
  have hended := client.ended_ask b call w
  have hpolicy := client.run_ask_policy b call w
  cases hrun : ((client.backed b).ask call).run World.perform w with
  | mk r w' =>
    rw [hrun] at hended hpolicy
    refine ⟨r, w', rfl, ?_⟩
    cases hended with
    | failed e hinside =>
      refine ⟨fun _ => hinside, fun g hg => ?_, fun _ _ g hg => ?_, hpolicy⟩
      · cases hg
      · cases hg
    | kept tokens expiresAt hinside hkept =>
      refine ⟨fun _ => hinside, fun g hg hpersisted => ?_, fun hstrict hb => ?_, hpolicy⟩
      · cases hg
        cases hpersisted
      · rcases hkept with hnone | hbest
        · exact absurd hnone hb
        · rw [hstrict] at hbest
          cases hbest
    | stored hb htokens hexpires hsave =>
      refine ⟨fun hnot => ?_, fun g hg _ => ?_, fun _ _ g hg => ?_, hpolicy⟩
      · exact absurd (hnot _ rfl) (by simp)
      · cases hg
        exact ⟨_, hb, GrantCall.persisted_of_save htokens hexpires hsave⟩
      · cases hg
        rfl

/-! ### Documents that no store has written -/

def granting (tokens : Tokens) : World :=
  { World.isolated .epoch .empty with
    endpoint := .scripted [.answer 200 (some (Utf8.encode tokens.json.compact))] }

section

variable {client : Client} {call : GrantCall}

theorem run_ask_of_save {kind : StoreKind} {w w' : World} {tokens : Tokens} {expiresAt : Instant}
    (hcall : call.isRefused = false) (htokens : w.endpoint.respond.1.tokens call.kind = .ok tokens)
    (hexpires : tokens.expiresAt? w.clock = .ok expiresAt)
    (hsave : (kind.store.save call.key tokens call.registration expiresAt).run World.perform
      (w.asked call.kind call.form) = (.ok (), w')) :
    ((client.on kind).ask call).run World.perform w = (.ok ⟨tokens, expiresAt, true⟩, w') := by
  have hclock : (w.asked call.kind call.form).clock = w.clock := rfl
  rw [run_ask _ call _ hcall, htokens]
  simp only [run_persist_on, hclock, hexpires, hsave]
  rfl

end

def newcomer : GrantCall := .login "user" "pass" ⟨"u1", "cid", "cs"⟩

theorem run_newcomer (client : Client) {tokens : Tokens} {expiresAt : Instant}
    (h : tokens.expiresAt? .epoch = .ok expiresAt) :
    ((client.on .memory).ask newcomer).run World.perform (granting tokens) =
      (.ok ⟨tokens, expiresAt, true⟩, { (granting tokens).asked .password newcomer.form with
        memory := [("u1", ⟨tokens, some ⟨"u1", "cid", "cs"⟩, expiresAt⟩)] }) :=
  run_ask_of_save rfl (Exchange.tokens_granted .password tokens) h rfl

def sampleRefresh : GrantCall := .refresh "u1" ⟨"at_1", "rt_1", 30⟩ ⟨"u1", "cid", "cs"⟩

def grantedPair : Tokens := ⟨"at_2", "rt_2", 30⟩

def refreshOn (b : StoreKind) (w : World) : Except Failure Granted × World :=
  (((new ⟨"default", "id", "secret"⟩).backed (some b)).ask sampleRefresh).run World.perform w

theorem refreshOn_of_save {b : StoreKind} {w w' : World}
    (hw : w.endpoint = (granting grantedPair).endpoint ∧ w.clock = .epoch)
    (hsave : (b.store.save "u1" grantedPair none .epoch).run World.perform
      (w.asked .refresh sampleRefresh.form) = (.ok (), w')) :
    refreshOn b w = (.ok ⟨grantedPair, .epoch, true⟩, w') := by
  obtain ⟨hendpoint, hclock⟩ := hw
  have htokens : w.endpoint.respond.1.tokens sampleRefresh.kind = .ok grantedPair := by
    rw [hendpoint]
    exact Exchange.tokens_granted .refresh grantedPair
  have hexpires : grantedPair.expiresAt? w.clock = .ok .epoch := by
    rw [hclock]
    rfl
  exact run_ask_of_save rfl htokens hexpires hsave

theorem refreshOn_documents {w w' : World}
    (hw : w.endpoint = (granting grantedPair).endpoint ∧ w.clock = .epoch)
    (hupsert : World.perform (.upsert "u1" (Row.strings (Dict.ofList
      (TokenDocument.texts "u1" grantedPair none .epoch)))) (w.asked .refresh sampleRefresh.form) =
        (.ok (), w')) :
    refreshOn .documents w = (.ok ⟨grantedPair, .epoch, true⟩, w') := by
  refine refreshOn_of_save hw ?_
  rw [StoreKind.run_documents_save, TokenDocument.fields_eq_strings]
  exact hupsert

def fileOf (doc : Document) : World :=
  { granting grantedPair with collection := .file ⟨"tokens.json", [("u1", doc)]⟩ }

def rowOf (fields : Dict String) : World :=
  { granting grantedPair with
    database := .ready (Database.setText [] "tokens" "u1" (Row.text fields)) }

theorem fileOf_holds (doc : Document) : (fileOf doc).Holds fun key => Dict.get? [("u1", doc)] key :=
  have hdisk : Disk.empty.Writable "tokens.json" := fun _ => ⟨_, rfl⟩
  ⟨rfl, hdisk, fun _ => rfl⟩

def unreadable : Document := [("client_id", .int 5), (dataField, .str "?")]

theorem refresh_over_unreadable :
    ∃ w', refreshOn (.sealedDocuments TokenStore.trialKey) (fileOf unreadable) =
        (.ok ⟨grantedPair, .epoch, true⟩, w') ∧
      (StoreKind.sealedDocuments TokenStore.trialKey).HoldsPair w' "u1" grantedPair .epoch := by
  have hasked := (fileOf_holds unreadable).congr
    ((fileOf unreadable).sameInside_asked sampleRefresh.kind sampleRefresh.form)
  obtain ⟨v, hsave⟩ := run_sealed_save_of_holds hasked TokenStore.trialKey "u1" grantedPair none
    .epoch
  have hask := refreshOn_of_save (b := .sealedDocuments TokenStore.trialKey)
    (w := fileOf unreadable) ⟨rfl, rfl⟩ hsave
  obtain ⟨r, w', hrun, -, hstored, -⟩ := (new ⟨"default", "id", "secret"⟩).ask_reports
    (some (.sealedDocuments TokenStore.trialKey)) sampleRefresh (fileOf unreadable)
  cases hrun.symm.trans hask
  obtain ⟨kind, hkind, hpersisted⟩ := hstored _ rfl rfl
  cases hkind
  exact ⟨v, hask, hpersisted.holds trivial trivial⟩

/-- A pair is reported as stored, and no entry can be read: where what a file has for a registration
is no text, and where a row has a name that is cut short to that of a field. -/
theorem persisted_unread :
    (∃ w', refreshOn .documents (fileOf [("client_id", .int 5)]) =
        (.ok ⟨grantedPair, .epoch, true⟩, w') ∧
      StoreKind.documents.held? w' "u1" = none) ∧
    ∃ w', refreshOn .documents (rowOf [("access_token\x00", "?")]) =
        (.ok ⟨grantedPair, .epoch, true⟩, w') ∧
      StoreKind.documents.held? w' "u1" = none ∧
      ¬ StoreKind.documents.StoresPair w' "u1" grantedPair .epoch := by
  constructor
  · have hasked := (fileOf_holds [("client_id", .int 5)]).congr
      ((fileOf [("client_id", .int 5)]).sameInside_asked .refresh sampleRefresh.form)
    obtain ⟨v, hupsert, -, hafter⟩ := perform_upsert hasked
      (TokenDocument.wellNamed_texts "u1" grantedPair none .epoch) "u1"
    refine ⟨v, refreshOn_documents ⟨rfl, rfl⟩ hupsert,
      StoreKind.held?_of_unread (hafter.find "u1") ?_⟩
    -- A save without a registration leaves the field as it was.
    have hid : Dict.get? (Dict.insertAll [("client_id", .int 5)] (Row.strings (Dict.ofList
        (TokenDocument.texts "u1" grantedPair none .epoch)))) "client_id" = some (.int 5) := by
      rw [← TokenDocument.fields_eq_strings,
        Dict.get?_insertAll (TokenDocument.ordered_fields ..).nodup_keys,
        TokenDocument.get?_fields]
      rfl
    exact .inr (textFieldOrEmpty?_eq_none hid rfl)
  · let cut : Dict String := [("access_token\x00", "?")]
    obtain ⟨v, hupsert, hfind⟩ := World.perform_upsert_row
      (w := (rowOf cut).asked .refresh sampleRefresh.form) rfl rfl rfl
      (show Database.text? _ _ "u1" = _ from rfl) (Row.read?_text cut)
      (Dict.ofList (TokenDocument.texts "u1" grantedPair none .epoch))
    have hnot : "access_token" ∉ Dict.keys (Dict.ofList (Row.setEntries (Row.strings cut)
        (Dict.ofList (TokenDocument.texts "u1" grantedPair none .epoch)))) := by
      rw [Dict.mem_keys_ofList]
      exact Row.notMem_keys_setEntries (by decide) ⟨"access_token\x00", by decide, by decide⟩
    have htoken : textField? (Dict.ofList (Row.setEntries (Row.strings cut) (Dict.ofList
        (TokenDocument.texts "u1" grantedPair none .epoch)))) "access_token" = none := by
      rw [textField?, Dict.get?_eq_none_of_notMem hnot]
      rfl
    exact ⟨v, refreshOn_documents ⟨rfl, rfl⟩ hupsert,
      StoreKind.held?_of_unread hfind (.inl htoken),
      StoreKind.not_storesPair_of_unread hfind htoken⟩

end Client
end TokenKeeper
