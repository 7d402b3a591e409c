import Mathlib.Algebra.BigOperators.Fin
import TokenKeeper.Proofs.Client.Grants
import TokenKeeper.Proofs.Client.SingleFlight
import TokenKeeper.Proofs.Client.Stages
import TokenKeeper.Proofs.RequestLog

/-!
# Every grant is counted

Each request for a pair is counted once, by how it ended, and each pair that was granted but not
stored is counted once more, unless there is no store. To say so for access tokens as well, the
programs of a client are taken apart: a call is served in some way, and what is handed out follows
from that without another step.
-/
namespace TokenKeeper

/-! ### Answers and requests by their looks -/

/-- How a request ended, going by its answer: none came, or not all of it; another status than
success; a body that is no pair; or a pair. -/
def Exchange.outcome : Exchange → Outcome
  | .silence => .transport
  | .answer status body =>
    if Status.isSuccess status then
      match body with
      | none => .transport
      | some bytes => if (Tokens.ofBytes? bytes).isSome then .success else .undecodable
    else .rejected

theorem Exchange.ofResult_tokens (x : Exchange) (grant : GrantKind) :
    Outcome.ofResult (x.tokens grant) = x.outcome := by
  unfold outcome tokens
  cases x with
  | silence => rfl
  | answer status body =>
    simp only
    split
    · cases body with
      | none => rfl
      | some bytes =>
        simp only
        cases Tokens.ofBytes? bytes <;> rfl
    · rfl

theorem Exchange.outcome_cases (x : Exchange) : x.outcome = .success ∨ x.outcome = .transport ∨
    x.outcome = .rejected ∨ x.outcome = .undecodable := by
  unfold outcome
  split
  · simp
  · split
    · split
      · simp
      · split <;> simp
    · simp

def Form.asksFor (form : Form) (grant : GrantKind) : Bool :=
  form.lookup "grant_type" == some grant.name

/-! ### How calls end -/

inductive Ending
  | ungranted (e : Failure)
  | unfit (e : Failure)
  | granted (g : Granted)
  | unsaved (e : Failure)

namespace Ending

def result : Ending → Except Failure Granted
  | .ungranted e => .error e
  | .unfit e => .error e
  | .granted g => .ok g
  | .unsaved e => .error e

end Ending

inductive Demand
  | grant (call : GrantCall)
  | accessToken (key : String)

def Demand.kind : Demand → GrantKind
  | .grant call => call.kind
  | .accessToken _ => .refresh

inductive Served
  | refused
  | missing (e : Failure)
  /-- The stored access token was good. -/
  | kept (accessToken : String)
  | asked (ending : Ending)

def Served.token (key : String) : Served → Except Failure String
  | .refused => .error .emptyCallerKey
  | .missing e => .error e
  | .kept accessToken => usableResult key accessToken
  | .asked ending => ending.result.bind fun g => usableResult key g.tokens.accessToken

namespace Client

variable (client : Client)

def settled (grant : GrantKind) (key : String) (tokens : Tokens)
    (credentials : Option Credentials) : Program Ending := do
  match tokens.expiresAt? (← Program.perform .now) with
  | .error e => return .unfit e
  | .ok expiresAt =>
    match client.store with
    | none => return .granted ⟨tokens, expiresAt, false⟩
    | some store =>
      match ← (store.save key tokens credentials expiresAt).attempt with
      | .ok () => return .granted ⟨tokens, expiresAt, true⟩
      | .error e =>
        Program.perform (.count (.persistFailure grant))
        match client.policy with
        | .strict => return .unsaved e
        | .bestEffort => return .granted ⟨tokens, expiresAt, false⟩

def exchange (call : GrantCall) : Program Ending := do
  match ← (request call.kind call.form).attempt with
  | .error e => return .ungranted e
  | .ok tokens => client.settled call.kind call.key tokens call.registration

def look (key : String) (due : StoredEntry → Program Served) : Program Served := do
  match ← (client.loadEntry key).attempt with
  | .error e => return .missing e
  | .ok entry =>
    if ← client.isDue entry then due entry else return .kept entry.tokens.accessToken

def exchangeEntry (key : String) (entry : StoredEntry) : Program Served := do
  return .asked (← client.exchange (.refresh key entry.tokens (client.resolve entry.credentials)))

def serve : Demand → Program Served
  | .grant call =>
    if call.isRefused then return .refused
    else do return .asked (← client.exchange call)
  | .accessToken key =>
    client.look key fun entry =>
      match client.mode with
      | .independent => client.exchangeEntry key entry
      | .singleFlight => withSlot key (client.look key (client.exchangeEntry key))

end Client

/-! ### Serving, and handing out what comes of it -/

namespace Program

variable {α β : Type}

theorem attempt_bind (p : Program α) {f : Except Failure α → Program β}
    (h : ∀ e, f (.error e) = .fail e) : p.attempt.bind f = p.bind fun a => f (.ok a) := by
  induction p with
  | done a => rfl
  | fail e => exact h e
  | step op next ih => exact congrArg (step op) (funext ih)

theorem attempt_bind_ofExcept (p : Program α) (f : α → Except Failure β) :
    (p.bind fun a => ofExcept (f a)).attempt = p.attempt.bind fun r => .done (r.bind f) := by
  induction p with
  | done a =>
    change (ofExcept (f a)).attempt = .done (f a)
    cases f a <;> rfl
  | fail e => rfl
  | step op next ih => exact congrArg (step op) (funext ih)

theorem ofExcept_bind (r : Except Failure α) (f : α → Except Failure β) :
    (ofExcept r).bind (fun a => ofExcept (f a)) = ofExcept (r.bind f) := by
  cases r <;> rfl

end Program

namespace Client

theorem withSlot_bind_ofExcept {α β : Type} (key : String) (p : Program α)
    (f : α → Except Failure β) : withSlot key (p.bind fun a => Program.ofExcept (f a)) =
      (withSlot key p).bind fun a => Program.ofExcept (f a) := by
  refine congrArg (Program.step (.checkout key)) (funext fun slot => ?_)
  refine congrArg (Program.step (.acquire slot)) (funext fun _ => ?_)
  change (Program.attempt _).bind _ = (p.attempt.bind _).bind _
  rw [Program.attempt_bind_ofExcept, Program.bind_assoc, Program.bind_assoc]
  refine congrArg (Program.bind p.attempt) (funext fun r => ?_)
  refine congrArg (Program.step (.release slot)) (funext fun _ => ?_)
  refine congrArg (Program.step (.retire slot)) (funext fun _ => ?_)
  refine congrArg (Program.step (.forget slot)) (funext fun _ => ?_)
  exact (Program.ofExcept_bind r f).symm

theorem usable_eq (key accessToken : String) :
    usable key accessToken = Program.ofExcept (usableResult key accessToken) := by
  unfold usable usableResult
  split <;> rfl

variable (client : Client)

theorem persist_eq_settled (grant : GrantKind) (key : String) (tokens : Tokens)
    (credentials : Option Credentials) : client.persist grant key tokens credentials =
      (client.settled grant key tokens credentials).bind fun ending =>
        Program.ofExcept ending.result := by
  refine congrArg (Program.step .now) (funext fun now => ?_)
  simp only [Program.bind]
  cases tokens.expiresAt? now with
  | error e => rfl
  | ok expiresAt =>
    cases client.store with
    | none => rfl
    | some store =>
      change (Program.attempt _).bind _ = (Program.bind (Program.attempt _) _).bind _
      rw [Program.bind_assoc]
      refine congrArg (Program.bind _) (funext fun r => ?_)
      cases r with
      | ok u => rfl
      | error e =>
        refine congrArg (Program.step (.count (.persistFailure grant))) (funext fun _ => ?_)
        cases client.policy <;> rfl

theorem ask_eq_exchange (call : GrantCall) (h : call.isRefused = false) : client.ask call =
    (client.exchange call).bind fun ending => Program.ofExcept ending.result := by
  rw [ask_eq_request client call h]
  change _ = ((request call.kind call.form).attempt.bind _).bind _
  rw [Program.bind_assoc, Program.attempt_bind _ fun _ => rfl]
  exact congrArg (Program.bind _) (funext fun tokens => client.persist_eq_settled _ _ tokens _)

theorem ask_eq (call : GrantCall) : client.ask call =
    if call.isRefused then .fail .emptyCallerKey
    else (client.exchange call).bind fun ending => Program.ofExcept ending.result := by
  cases h : call.isRefused with
  | true => exact client.ask_eq_refused call h
  | false => exact client.ask_eq_exchange call h

theorem refreshed_eq_exchangeEntry (key : String) (e : StoredEntry) :
    ((client.refreshEntry key e).bind fun tokens => usable key tokens.accessToken) =
      (client.exchangeEntry key e).bind fun served => Program.ofExcept (served.token key) := by
  let call : GrantCall := .refresh key e.tokens (client.resolve e.credentials)
  change ((client.ask call).bind _).bind _ = ((client.exchange call).bind _).bind _
  rw [ask_eq_exchange client call rfl]
  simp only [Program.bind_assoc]
  refine congrArg (Program.bind _) (funext fun ending => ?_)
  cases ending with
  | granted g => exact usable_eq key g.tokens.accessToken
  | ungranted e => rfl
  | unfit e => rfl
  | unsaved e => rfl

theorem look_eq (key : String) {due : StoredEntry → Program String}
    {served : StoredEntry → Program Served}
    (h : ∀ e, due e = (served e).bind fun s => Program.ofExcept (s.token key)) :
    ((client.loadEntry key).bind fun e => (client.isDue e).bind fun d =>
        if d then due e else usable key e.tokens.accessToken) =
      (client.look key served).bind fun s => Program.ofExcept (s.token key) := by
  change _ = ((client.loadEntry key).attempt.bind _).bind _
  rw [Program.bind_assoc, Program.attempt_bind _ fun _ => rfl]
  refine congrArg (Program.bind _) (funext fun e => ?_)
  refine congrArg (Program.step .now) (funext fun now => ?_)
  simp only [Program.bind]
  cases client.needsRefresh now e.expiresAt with
  | true => exact h e
  | false => exact usable_eq key e.tokens.accessToken

theorem accessToken_eq_serve (key : String) : client.accessToken key =
    (client.serve (.accessToken key)).bind fun served => Program.ofExcept (served.token key) := by
  refine client.look_eq key fun e => ?_
  cases client.mode with
  | independent => exact client.refreshed_eq_exchangeEntry key e
  | singleFlight =>
    have hagain := client.look_eq key (client.refreshed_eq_exchangeEntry key)
    exact (congrArg (withSlot key) hagain).trans (withSlot_bind_ofExcept key _ _)

end Client

/-! ### The log of a call -/

def Ending.isGranted : Ending → Bool
  | .ungranted _ => false
  | _ => true

def Ending.isLost (client : Client) : Ending → Bool
  | .granted g => !g.persisted && client.store.isSome
  | .unsaved _ => true
  | _ => false

/-- The log of one request: the request itself, its count, and that of a pair that is lost. -/
def Ending.LogFits (client : Client) (grant : GrantKind) (ending : Ending) (log : List LogEntry) :
    Prop :=
  ∃ form answer, form.asksFor grant = true ∧ ending.isGranted = (answer.outcome == .success) ∧
    log = [.asked form answer, .counted (.request grant answer.outcome)] ++
      if ending.isLost client then [.counted (.persistFailure grant)] else []

def Served.LogFits (client : Client) (grant : GrantKind) : Served → List LogEntry → Prop
  | .asked ending, log => ending.LogFits client grant log
  | _, log => log = []

/-- How a demand can be served: a login without a caller key is refused, any other grant is asked
for, and an access token may be. -/
def Demand.Admits : Demand → Served → Prop
  | .grant call, .refused => call.isRefused = true
  | .grant call, .asked _ => call.isRefused = false
  | .grant _, _ => False
  | .accessToken _, .refused => False
  | .accessToken _, _ => True

def Demand.Fits (client : Client) (demand : Demand) (served : Served) (log : List LogEntry) :
    Prop :=
  demand.Admits served ∧ served.LogFits client demand.kind log

theorem Outcome.ofKind_ne_success (kind : Failure.Kind) : (ofKind kind == success) = false := by
  cases kind <;> rfl

theorem GrantCall.asksFor_form (call : GrantCall) : call.form.asksFor call.kind = true := by
  cases call <;> rfl

theorem Op.OfStore.log {op : Op} (h : op.OfStore) (a : op.Answer) : op.log a = [] := by
  rcases h with h | rfl
  · exact op.log_of_inner h a
  · rfl

namespace Client

variable {client : Client} (hstore : ∀ store ∈ client.store, store.StoreOnly)

theorem yields_withSlot (key : String) {body : Program Served} {R : Served → List LogEntry → Prop}
    (h : body.Yields [] R) : (withSlot key body).Yields [] R := by
  have hquiet : ∀ {op : Op}, op.isLocking = true → ∀ a, op.log a = [] := by
    intro op hop a
    cases op <;> first | contradiction | rfl
  refine Program.leaves_unlogged (hquiet rfl) fun slot => ?_
  refine Program.leaves_unlogged (hquiet rfl) fun _ => ?_
  refine h.attempt.bind ?_
  rintro _ left ⟨served, rfl, hserved⟩
  refine Program.leaves_unlogged (hquiet rfl) fun _ => ?_
  refine Program.leaves_unlogged (hquiet rfl) fun _ => ?_
  exact Program.leaves_unlogged (hquiet rfl) fun _ => Program.yields_done hserved

section

include hstore

theorem yields_settled (grant : GrantKind) (key : String) (tokens : Tokens)
    (credentials : Option Credentials) (log : List LogEntry) :
    (client.settled grant key tokens credentials).Yields log fun ending left =>
      ending.isGranted = true ∧ left = log ++
        if ending.isLost client then [.counted (.persistFailure grant)] else [] := by
  refine Program.leaves_unlogged (fun _ => rfl) fun now => ?_
  simp only [Program.bind]
  cases tokens.expiresAt? now with
  | error e => exact Program.yields_done ⟨rfl, (List.append_nil _).symm⟩
  | ok expiresAt =>
    simp only
    split
    · next hnone => exact Program.yields_done ⟨rfl, by simp [Ending.isLost, hnone]⟩
    · next store hsome =>
      have hsave := (hstore store hsome).save key tokens credentials expiresAt
      refine Program.yields_attempt_bind hsave (fun op a hop => hop.log a) fun r => ?_
      cases r with
      | ok u => exact Program.yields_done ⟨rfl, by simp [Ending.isLost]⟩
      | error e =>
        refine Program.leaves_step fun _ => ?_
        simp only [Program.bind]
        cases client.policy with
        | strict => exact Program.yields_done ⟨rfl, rfl⟩
        | bestEffort => exact Program.yields_done ⟨rfl, by simp [Ending.isLost, hsome, Op.log]⟩

theorem yields_exchange (call : GrantCall) :
    (client.exchange call).Yields [] fun ending left => ending.LogFits client call.kind left := by
  refine Program.leaves_step fun x => Program.leaves_step fun _ => ?_
  change Program.Yields (((Program.ofExcept (x.tokens call.kind)).attempt).bind _)
    [.asked call.form x, .counted (.request call.kind (.ofResult (x.tokens call.kind)))] _
  have houtcome := x.ofResult_tokens call.kind
  rw [houtcome]
  cases htokens : x.tokens call.kind with
  | error e =>
    have hfailed : (x.outcome == .success) = false := by
      rw [← houtcome, htokens]
      exact Outcome.ofKind_ne_success e.kind
    exact Program.yields_done ⟨call.form, x, call.asksFor_form, hfailed.symm, rfl⟩
  | ok tokens =>
    have hgranted : (x.outcome == .success) = true := by
      rw [← houtcome, htokens]
      rfl
    refine (yields_settled hstore call.kind call.key tokens _ _).mono ?_
    rintro ending left ⟨hending, hleft⟩
    exact ⟨call.form, x, call.asksFor_form, hending.trans hgranted.symm, hleft⟩

theorem yields_look (key : String) {due : StoredEntry → Program Served}
    (h : ∀ e, (due e).Yields [] (Demand.Fits client (.accessToken key))) :
    (client.look key due).Yields [] (Demand.Fits client (.accessToken key)) := by
  refine Program.yields_attempt_bind (storeOnly_loadEntry hstore key) (fun op a hop => hop.log a)
    fun r => ?_
  cases r with
  | error e => exact Program.yields_done ⟨trivial, rfl⟩
  | ok e =>
    refine Program.leaves_step fun now => ?_
    change Program.Yields (if client.needsRefresh now e.expiresAt then due e
      else .done (.kept e.tokens.accessToken)) [] _
    split
    · exact h e
    · exact Program.yields_done ⟨trivial, rfl⟩

theorem yields_exchangeEntry (key : String) (e : StoredEntry) :
    (client.exchangeEntry key e).Yields [] (Demand.Fits client (.accessToken key)) := by
  have hexchange := yields_exchange hstore (.refresh key e.tokens (client.resolve e.credentials))
  exact hexchange.bind fun ending left hlogFits => Program.yields_done ⟨trivial, hlogFits⟩

theorem yields_serve (demand : Demand) :
    (client.serve demand).Yields [] (demand.Fits client) := by
  cases demand with
  | grant call =>
    change Program.Yields (if call.isRefused then _ else _) [] _
    cases hcall : call.isRefused with
    | true => exact Program.yields_done ⟨hcall, rfl⟩
    | false =>
      exact (yields_exchange hstore call).bind fun ending left hlogFits =>
        Program.yields_done ⟨hcall, hlogFits⟩
  | accessToken key =>
    refine yields_look hstore key fun e => ?_
    cases client.mode with
    | independent => exact yields_exchangeEntry hstore key e
    | singleFlight =>
      exact yields_withSlot key (yields_look hstore key (yields_exchangeEntry hstore key))

end

end Client

/-! ### Counting in a log -/

theorem countP_cons_toNat {α : Type} (p : α → Bool) (a : α) (rest : List α) :
    (a :: rest).countP p = rest.countP p + (p a).toNat := by
  rw [List.countP_cons]
  cases p a <;> rfl

namespace Counter

variable (a b : GrantKind) (o o' : Outcome)

theorem request_beq_request :
    (Counter.request a o == Counter.request b o') = (a == b && o == o') := by
  cases a <;> cases b <;> cases o <;> cases o' <;> rfl

theorem persistFailure_beq_request :
    (Counter.persistFailure a == Counter.request b o) = false := by
  cases a <;> cases b <;> cases o <;> rfl

theorem request_beq_persistFailure :
    (Counter.request a o == Counter.persistFailure b) = false := by
  cases a <;> cases b <;> cases o <;> rfl

theorem persistFailure_beq_persistFailure :
    (Counter.persistFailure a == Counter.persistFailure b) = (a == b) := by
  cases a <;> cases b <;> rfl

end Counter

namespace LogEntry

def isRequest (grant : GrantKind) : LogEntry → Bool
  | .asked form _ => form.asksFor grant
  | .counted _ => false

def isAnswer (grant : GrantKind) (outcome : Outcome) : LogEntry → Bool
  | .asked form answer => form.asksFor grant && answer.outcome == outcome
  | .counted _ => false

def isCount (counter : Counter) : LogEntry → Bool
  | .asked _ _ => false
  | .counted c => c == counter

theorem countP_requests (log : List LogEntry) (grant : GrantKind) :
    ((log.filterMap form?).reverse).countP (·.asksFor grant) =
      log.countP (isRequest grant) := by
  rw [List.countP_reverse, List.countP_filterMap]
  refine List.countP_congr fun m _ => ?_
  cases m <;> simp [form?, isRequest]

theorem count_counters (log : List LogEntry) (counter : Counter) :
    ((log.filterMap counter?).reverse).count counter = log.countP (isCount counter) := by
  rw [List.count_reverse, List.count, List.countP_filterMap]
  refine List.countP_congr fun m _ => ?_
  cases m <;> simp [counter?, isCount]

theorem countP_answers (log : List LogEntry) (grant : GrantKind) (outcome : Outcome) :
    (log.filterMap exchange?).countP
        (fun a => a.1.asksFor grant && a.2.outcome == outcome) =
      log.countP (isAnswer grant outcome) := by
  rw [List.countP_filterMap]
  refine List.countP_congr fun m _ => ?_
  cases m <;> simp [exchange?, isAnswer]

theorem isAnswer_other (grant : GrantKind) (m : LogEntry) : ¬ isAnswer grant .other m = true := by
  cases m with
  | counted c => exact Bool.false_ne_true
  | asked form answer =>
    rcases answer.outcome_cases with h | h | h | h <;> simp [isAnswer, h]

theorem countP_outcomes (log : List LogEntry) (grant : GrantKind) :
    log.countP (isAnswer grant .success) + log.countP (isAnswer grant .transport) +
      log.countP (isAnswer grant .rejected) + log.countP (isAnswer grant .undecodable) =
        log.countP (isRequest grant) := by
  induction log with
  | nil => rfl
  | cons m rest ih =>
    have hm : (isAnswer grant .success m).toNat + (isAnswer grant .transport m).toNat +
        (isAnswer grant .rejected m).toNat + (isAnswer grant .undecodable m).toNat =
          (isRequest grant m).toNat := by
      cases m with
      | counted c => rfl
      | asked form answer =>
        simp only [isAnswer, isRequest]
        cases form.asksFor grant with
        | false => rfl
        | true => rcases answer.outcome_cases with h | h | h | h <;> rw [h] <;> rfl
    simp only [countP_cons_toNat]
    omega

end LogEntry

/-! ### What is booked for one call -/

/-- Whether a demand takes a request: every refresh and every login with a caller key does, and an
access token unless none is loaded or the stored one is good. -/
def Demand.asks : Demand → Served → Bool
  | .grant call, _ => !call.isRefused
  | .accessToken _, .asked _ => true
  | .accessToken _, _ => false

namespace Served

def isPersisted : Served → Bool
  | .asked (.granted g) => g.persisted
  | _ => false

def isUnfit : Served → Bool
  | .asked (.unfit _) => true
  | _ => false

def isStoreless (client : Client) : Served → Bool
  | .asked (.granted g) => !g.persisted && client.store.isNone
  | _ => false

end Served

theorem Form.asksFor_eq {form : Form} {kind : GrantKind} (h : form.asksFor kind = true)
    (grant : GrantKind) : form.asksFor grant = (kind == grant) := by
  have hkind : form.lookup "grant_type" = some kind.name := by simpa [asksFor] using h
  rw [asksFor, hkind]
  cases kind <;> cases grant <;> decide

theorem Ending.countP_logFits {client : Client} {grant : GrantKind} {ending : Ending} {form : Form}
    {x : Exchange} {log : List LogEntry}
    (h : log = [.asked form x, .counted (.request grant x.outcome)] ++
      if ending.isLost client then [.counted (.persistFailure grant)] else [])
    (p : LogEntry → Bool) :
    log.countP p = (p (.asked form x)).toNat +
      (p (.counted (.request grant x.outcome))).toNat +
      (ending.isLost client && p (.counted (.persistFailure grant))).toNat := by
  rw [h, List.countP_append, countP_cons_toNat, countP_cons_toNat, List.countP_nil]
  cases ending.isLost client with
  | true =>
    rw [if_pos rfl, countP_cons_toNat, List.countP_nil, Bool.true_and]
    omega
  | false =>
    rw [if_neg Bool.false_ne_true, List.countP_nil, Bool.false_and, Bool.toNat_false]
    omega

namespace Demand.Fits

variable {client : Client} {demand : Demand} {served : Served} {log : List LogEntry}
  (h : demand.Fits client served log) (grant : GrantKind)

include h

theorem cases_log : (demand.asks served = false ∧ log = [] ∧ served.isPersisted = false ∧
      served.isUnfit = false ∧ served.isStoreless client = false) ∨
    ∃ ending, demand.asks served = true ∧ served = .asked ending ∧
      ending.LogFits client demand.kind log := by
  obtain ⟨hadmits, hlogFits⟩ := h
  cases served with
  | asked ending =>
    refine Or.inr ⟨ending, ?_, rfl, hlogFits⟩
    cases demand with
    | grant call =>
      have hcall : call.isRefused = false := hadmits
      simp [Demand.asks, hcall]
    | accessToken key => rfl
  | refused =>
    cases demand with
    | grant call =>
      have hcall : call.isRefused = true := hadmits
      exact Or.inl ⟨by simp [Demand.asks, hcall], hlogFits, rfl, rfl, rfl⟩
    | accessToken key => exact hadmits.elim
  | missing e =>
    cases demand with
    | grant call => exact hadmits.elim
    | accessToken key => exact Or.inl ⟨rfl, hlogFits, rfl, rfl, rfl⟩
  | kept accessToken =>
    cases demand with
    | grant call => exact hadmits.elim
    | accessToken key => exact Or.inl ⟨rfl, hlogFits, rfl, rfl, rfl⟩

theorem requests : log.countP (LogEntry.isRequest grant) =
    (demand.kind == grant && demand.asks served).toNat := by
  rcases h.cases_log with ⟨hasks, rfl, -⟩ | ⟨ending, hasks, rfl, form, x, hform, -, hlog⟩
  · simp [hasks]
  · rw [Ending.countP_logFits hlog, hasks, Bool.and_true, ← Form.asksFor_eq hform grant]
    simp [LogEntry.isRequest]

theorem split (outcome : Outcome) : log.countP (LogEntry.isCount (.request grant outcome)) =
    log.countP (LogEntry.isAnswer grant outcome) := by
  rcases h.cases_log with ⟨-, rfl, -⟩ | ⟨ending, -, rfl, form, x, hform, -, hlog⟩
  · rfl
  · rw [Ending.countP_logFits hlog, Ending.countP_logFits hlog]
    simp [LogEntry.isCount, LogEntry.isAnswer, Form.asksFor_eq hform grant,
      Counter.request_beq_request, Counter.persistFailure_beq_request]

theorem success : log.countP (LogEntry.isCount (.request grant .success)) =
    (demand.kind == grant && served.isPersisted).toNat +
      log.countP (LogEntry.isCount (.persistFailure grant)) +
      (demand.kind == grant && served.isUnfit).toNat +
      (demand.kind == grant && served.isStoreless client).toNat := by
  rcases h.cases_log with ⟨-, rfl, hpersisted, hunfit, hstoreless⟩ |
    ⟨ending, -, rfl, form, x, hform, hgranted, hlog⟩
  · simp [hpersisted, hunfit, hstoreless]
  · rw [Ending.countP_logFits hlog, Ending.countP_logFits hlog]
    simp only [LogEntry.isCount, Counter.request_beq_request, Counter.persistFailure_beq_request,
      Counter.request_beq_persistFailure, Counter.persistFailure_beq_persistFailure, ← hgranted]
    cases demand.kind == grant with
    | false => simp
    | true =>
      cases ending with
      | granted g =>
        obtain ⟨tokens, expiresAt, persisted⟩ := g
        cases persisted <;> cases hstore : client.store <;>
          simp [Ending.isGranted, Ending.isLost, Served.isPersisted, Served.isUnfit,
            Served.isStoreless, hstore]
      | _ => simp [Ending.isGranted, Ending.isLost, Served.isPersisted, Served.isUnfit,
          Served.isStoreless]

end Demand.Fits

/-! ### The counts of a whole run -/

abbrev Rows := List (Demand × Served)

/-- The counts for one kind of grant agree with what was sent and answered. -/
structure CountsAgree (client : Client) (rows : Rows) (posts : List Form)
    (answers : List (Form × Exchange)) (counted : List Counter) (grant : GrantKind) : Prop where
  requests : counted.count (.request grant .success) + counted.count (.request grant .transport) +
    counted.count (.request grant .rejected) + counted.count (.request grant .undecodable) =
      posts.countP (·.asksFor grant)
  others : counted.count (.request grant .other) = 0
  sent : posts.countP (·.asksFor grant) =
    rows.countP fun row => row.1.kind == grant && row.1.asks row.2
  split : ∀ outcome, counted.count (.request grant outcome) =
    answers.countP fun a => a.1.asksFor grant && a.2.outcome == outcome
  success : counted.count (.request grant .success) =
    (rows.countP fun row => row.1.kind == grant && row.2.isPersisted) +
      counted.count (.persistFailure grant) +
      (rows.countP fun row => row.1.kind == grant && row.2.isUnfit) +
      rows.countP fun row => row.1.kind == grant && row.2.isStoreless client

theorem sum_countP_eq (rows : Rows) (q : Demand × Served → Bool) :
    rows.countP q = ∑ i : Fin rows.length, (q rows[i]).toNat := by
  change _ = ∑ i : Fin rows.length, (q rows[(i : Nat)]).toNat
  rw [Fin.sum_univ_fun_getElem rows fun row => (q row).toNat]
  induction rows with
  | nil => rfl
  | cons row rest ih => rw [countP_cons_toNat, List.map_cons, List.sum_cons, ih, Nat.add_comm]

theorem countsAgree_of_fits {client : Client} {rows : Rows} {past : List Event}
    (hwithin : ∀ e ∈ past, e.task < rows.length)
    (hfits : ∀ i : Fin rows.length, rows[i].1.Fits client rows[i].2 (ownLog i past))
    (grant : GrantKind) :
    CountsAgree client rows ((logOf past).filterMap LogEntry.form?).reverse
      ((logOf past).filterMap LogEntry.exchange?)
      ((logOf past).filterMap LogEntry.counter?).reverse grant := by
  have hsum : ∀ p, (logOf past).countP p =
      ∑ i : Fin rows.length, (ownLog i past).countP p := fun p =>
    (countP_logOf p hwithin).trans (Finset.sum_range fun i => (ownLog i past).countP p)
  have hsplit : ∀ outcome, (logOf past).countP (LogEntry.isCount (.request grant outcome)) =
      (logOf past).countP (LogEntry.isAnswer grant outcome) := by
    intro outcome
    rw [hsum, hsum]
    exact Finset.sum_congr rfl fun i _ => (hfits i).split grant outcome
  constructor
  · simp only [LogEntry.count_counters, LogEntry.countP_requests, hsplit]
    exact LogEntry.countP_outcomes _ grant
  · rw [LogEntry.count_counters, hsplit, List.countP_eq_zero]
    exact fun m _ => LogEntry.isAnswer_other grant m
  · rw [LogEntry.countP_requests, hsum, sum_countP_eq]
    exact Finset.sum_congr rfl fun i _ => (hfits i).requests grant
  · intro outcome
    rw [LogEntry.count_counters, LogEntry.countP_answers, hsplit]
  · simp only [LogEntry.count_counters, hsum, sum_countP_eq, ← Finset.sum_add_distrib]
    exact Finset.sum_congr rfl fun i _ => (hfits i).success grant

namespace Client

variable {client : Client}

def serving (client : Client) (demands : List Demand) (w : World) : TaskPool Served :=
  ⟨(demands.map client.serve).map .start, w⟩

theorem fits_of_served (hstore : ∀ store ∈ client.store, store.StoreOnly) {demands : List Demand}
    {w : World} {ms : List Move} {served : List Served}
    (hserved : ((client.serving demands w).after ms).tasks.map Task.result? =
      served.map fun s => some (.ok s)) :
    (∀ e ∈ (client.serving demands w).events ms, e.task < (demands.zip served).length) ∧
      ∀ i : Fin (demands.zip served).length,
        (demands.zip served)[i].1.Fits client (demands.zip served)[i].2
          (ownLog i ((client.serving demands w).events ms)) := by
  have hlength : served.length = demands.length := by
    have hall := congrArg List.length hserved
    simp only [List.length_map, TaskPool.length_after] at hall
    rw [← hall, serving, List.length_map, List.length_map]
  have hprograms : ∀ (i : Nat) (p : Program Served), (demands.map client.serve)[i]? = some p →
      p.Leaves [] fun left r => ∃ d s, demands[i]? = some d ∧ r = .ok s ∧ d.Fits client s left := by
    intro i p hp
    obtain ⟨d, hd, rfl⟩ := Option.map_eq_some_iff.mp (List.getElem?_map.symm.trans hp)
    refine Program.Leaves.mono (yields_serve hstore d) ?_
    rintro left r ⟨s, hr, hfits⟩
    exact ⟨d, s, hd, hr, hfits⟩
  obtain ⟨hwithin, hended⟩ := TaskPool.fit_of_ended hprograms w ms
  refine ⟨fun e he => ?_, fun i => ?_⟩
  · have htask := hwithin e he
    rw [List.length_map] at htask
    rw [List.length_zip, hlength, Nat.min_self]
    exact htask
  · obtain ⟨j, hj⟩ := i
    have hdemand := List.lt_length_left_of_zip hj
    have hs := List.lt_length_right_of_zip hj
    have hresult := congrArg (fun results => results[j]?) hserved
    simp only [List.getElem?_map, List.getElem?_eq_getElem hs, Option.map_some] at hresult
    obtain ⟨t, ht, hr⟩ := Option.map_eq_some_iff.mp hresult
    obtain ⟨d, s, hd, hok, hfits⟩ := hended j t _ ht hr
    cases hok
    rw [List.getElem?_eq_getElem hdemand] at hd
    cases hd
    change (demands.zip served)[j].1.Fits client (demands.zip served)[j].2 _
    rw [List.getElem_zip]
    exact hfits

/-- Whatever is asked of a client, in whatever order its tasks take turns, and whatever the endpoint
answers and the store does, its counters account for every grant: each request is counted once, by
how it ended, and each pair that was granted is stored, counted as lost, unfit for a timestamp, or
had no store to go to. -/
theorem counters_account (hstore : ∀ store ∈ client.store, store.StoreOnly) {demands : List Demand}
    {w : World} {ms : List Move} {served : List Served}
    (hserved : ((client.serving demands w).after ms).tasks.map Task.result? =
      served.map fun s => some (.ok s)) :
    ((∀ call, client.ask call = if call.isRefused then .fail .emptyCallerKey
        else (client.exchange call).bind fun ending => Program.ofExcept ending.result) ∧
      ∀ key, client.accessToken key = (client.serve (.accessToken key)).bind fun s =>
        Program.ofExcept (s.token key)) ∧
    (∀ row ∈ demands.zip served, row.1.Admits row.2) ∧
    ∃ posts counted,
      ((client.serving demands w).after ms).world.posts = posts ++ w.posts ∧
      ((client.serving demands w).after ms).world.counted = counted ++ w.counted ∧
      ∀ grant, CountsAgree client (demands.zip served) posts
        ((logOf ((client.serving demands w).events ms)).filterMap LogEntry.exchange?) counted
        grant := by
  obtain ⟨hwithin, hfits⟩ := fits_of_served hstore hserved
  obtain ⟨hposts, hcounted⟩ := (client.serving demands w).shown_after ms
  refine ⟨⟨client.ask_eq, client.accessToken_eq_serve⟩, fun row hrow => ?_,
    _, _, hposts, hcounted, countsAgree_of_fits hwithin hfits⟩
  obtain ⟨i, hi, rfl⟩ := List.mem_iff_getElem.mp hrow
  exact (hfits ⟨i, hi⟩).1

end Client

/-! ### A pair that is stored, and three demands that come to nothing -/

namespace CountedDemands

def client : Client := (Client.new ⟨"default", "id", "secret"⟩).on .memory

def tokens : Tokens := ⟨"at_1", "rt_1", 30⟩

def answer : Exchange := .answer 200 (some (Utf8.encode tokens.json.compact))

def world (x : Exchange) : World :=
  { World.isolated .epoch .empty with endpoint := .scripted [x, .answer 400 none] }

def demands : List Demand :=
  [.grant Client.newcomer, .grant (.login "user" "pass" ⟨"", "", ""⟩),
    .grant (.refresh "u2" ⟨"at_9", "rt_9", 0⟩ ⟨"", "", ""⟩), .accessToken "u3"]

def served : List Served :=
  [.asked (.granted ⟨tokens, .epoch, true⟩), .refused,
    .asked (.ungranted (.rejected .refresh 400 none)), .missing (.nothingStored "u3")]

def remainder (result : Except Failure Tokens) : Program Served :=
  ((((Program.perform (.count (.request .password (.ofResult result)))).bind fun _ =>
    .ofExcept result).attempt.bind fun r =>
      match r with
      | .error e => .done (.ungranted e)
      | .ok tokens => client.settled .password "u1" tokens Client.newcomer.registration).bind
        fun ending => .done (.asked ending))

def answered (x : Exchange) (result : Except Failure Tokens) : TaskPool Served :=
  let c := (client.serving demands (world x)).move (.run 0)
  ⟨c.tasks.set 0 (.running (remainder result) []), c.world⟩

theorem move_asking (x : Exchange) : (client.serving demands (world x)).move (.run 0) =
    answered x (x.tokens .password) := rfl

def rest : List Move :=
  List.replicate 3 (.run 0) ++ List.replicate 2 (.run 2) ++ List.replicate 2 (.run 3)

theorem results_rest : ((answered answer (.ok tokens)).after rest).tasks.map Task.result? =
    served.map fun s => some (.ok s) := rfl

theorem served_rest : ((client.serving demands (world answer)).after (.run 0 :: rest)).tasks.map
    Task.result? = served.map fun s => some (.ok s) := by
  have htokens : answer.tokens .password = .ok tokens := Exchange.tokens_granted .password tokens
  rw [TaskPool.after_cons, move_asking, htokens]
  exact results_rest

theorem demands_accounted : ∃ posts counted,
    ((client.serving demands (world answer)).after (.run 0 :: rest)).world.posts =
      posts ++ (world answer).posts ∧
    ((client.serving demands (world answer)).after (.run 0 :: rest)).world.counted =
      counted ++ (world answer).counted ∧
    counted.count (.request .password .success) = 1 + counted.count (.persistFailure .password) ∧
    posts.countP (·.asksFor .password) = 1 ∧ posts.countP (·.asksFor .refresh) = 1 := by
  have hstore : ∀ store ∈ client.store, store.StoreOnly := by
    rintro _ ⟨⟩
    exact TokenStore.memory_storeOnly
  obtain ⟨-, -, posts, counted, hposts, hcounted, hcounts⟩ :=
    Client.counters_account hstore served_rest
  have hlogin := hcounts .password
  have hrefresh := hcounts .refresh
  exact ⟨posts, counted, hposts, hcounted, hlogin.success, hlogin.sent, hrefresh.sent⟩

end CountedDemands
end TokenKeeper
