import TokenKeeper.Client
import TokenKeeper.Proofs.Tasks

/-!
# Rules that a client keeps

A client takes the steps of its store, looks at the clock, asks for pairs, counts, and with one
refresh at a time takes steps with the locks. So it keeps to all rules that its store keeps to and
that allow these other steps.
-/
namespace TokenKeeper

def Op.isGranting : Op → Bool
  | .now | .post _ | .count _ => true
  | _ => false

theorem Op.isOuter_of_isGranting {op : Op} (h : op.isGranting = true) : op.isOuter = true := by
  cases op <;> first | contradiction | rfl

namespace Client

variable {client : Client} {allowed : Op → Prop} {expected : (op : Op) → op.Answer → Prop}

theorem allSteps_usable (key accessToken : String) :
    (usable key accessToken).AllSteps allowed expected := by
  unfold usable
  split <;> exact trivial

theorem allSteps_loadEntry {key : String}
    (hload : ∀ store ∈ client.store, (store.load key).AllSteps allowed expected) :
    (client.loadEntry key).AllSteps allowed expected := by
  unfold loadEntry
  split
  · next store hstore => exact hload store hstore
  · exact trivial

theorem allSteps_withSlot {key : String} {p : Program String}
    (hlock : ∀ op : Op, op.isLocking = true → allowed op) (h : p.AllSteps allowed expected) :
    (withSlot key p).AllSteps allowed expected := by
  refine Program.allSteps_bind (Program.allSteps_perform (hlock _ rfl)) fun slot => ?_
  refine Program.allSteps_bind (Program.allSteps_perform (hlock _ rfl)) fun _ => ?_
  refine Program.allSteps_bind (Program.allSteps_attempt h) fun result => ?_
  refine Program.allSteps_bind (Program.allSteps_perform (hlock _ rfl)) fun _ => ?_
  refine Program.allSteps_bind (Program.allSteps_perform (hlock _ rfl)) fun _ => ?_
  refine Program.allSteps_bind (Program.allSteps_perform (hlock _ rfl)) fun _ => ?_
  exact Program.allSteps_ofExcept _

section

variable (hgrant : ∀ op : Op, op.isGranting = true → allowed op)

include hgrant

theorem allSteps_request (grant : GrantKind) (form : Form) :
    (request grant form).AllSteps allowed expected := by
  refine Program.allSteps_bind (Program.allSteps_perform (hgrant _ rfl)) fun answer => ?_
  refine Program.allSteps_bind (Program.allSteps_perform (hgrant _ rfl)) fun _ => ?_
  exact Program.allSteps_ofExcept _

theorem allSteps_isDue (entry : StoredEntry) : (client.isDue entry).AllSteps allowed expected :=
  Program.allSteps_bind (Program.allSteps_perform (hgrant _ rfl)) fun _ => trivial

theorem allSteps_persist (grant : GrantKind) {key : String} {tokens : Tokens}
    {credentials : Option Credentials} (hsave : ∀ store ∈ client.store, ∀ expiresAt,
      (store.save key tokens credentials expiresAt).AllSteps allowed expected) :
    (client.persist grant key tokens credentials).AllSteps allowed expected := by
  refine Program.allSteps_bind (Program.allSteps_perform (hgrant _ rfl)) fun now => ?_
  refine Program.allSteps_bind (Program.allSteps_ofExcept _) fun expiresAt => ?_
  cases hsome : client.store with
  | none => exact trivial
  | some store =>
    refine Program.allSteps_bind (Program.allSteps_attempt (hsave store hsome expiresAt))
      fun r => ?_
    cases r with
    | ok u => exact trivial
    | error e =>
      refine Program.allSteps_bind (Program.allSteps_perform (hgrant _ rfl)) fun _ => ?_
      cases client.policy <;> exact trivial

theorem allSteps_login {username password : String} {credentials : Credentials}
    (hsave : ∀ store ∈ client.store, ∀ tokens expiresAt,
      (store.save credentials.callerKey tokens (some credentials) expiresAt).AllSteps
        allowed expected) :
    (client.login username password credentials).AllSteps allowed expected := by
  unfold login
  split
  · exact trivial
  · refine Program.allSteps_bind (allSteps_request hgrant _ _) fun tokens => ?_
    exact allSteps_persist hgrant _ fun store hstore => hsave store hstore tokens

variable {key : String} (hsave : ∀ store ∈ client.store, ∀ tokens expiresAt,
  (store.save key tokens none expiresAt).AllSteps allowed expected)

include hsave

theorem allSteps_refreshed (entry : StoredEntry) :
    (client.refreshEntry key entry >>= fun tokens => usable key tokens.accessToken).AllSteps
      allowed expected := by
  refine Program.allSteps_bind ?_ fun tokens => allSteps_usable key tokens.accessToken
  refine Program.allSteps_bind (Program.allSteps_bind (allSteps_request hgrant _ _)
    fun granted => ?_) fun _ => trivial
  exact allSteps_persist hgrant _ fun store hstore => hsave store hstore granted

variable (hload : ∀ store ∈ client.store, (store.load key).AllSteps allowed expected)

include hload

theorem allSteps_refreshAgain : (client.refreshAgain key).AllSteps allowed expected := by
  refine Program.allSteps_bind (allSteps_loadEntry hload) fun entry => ?_
  refine Program.allSteps_bind (allSteps_isDue hgrant entry) fun due => ?_
  split
  · exact allSteps_refreshed hgrant hsave entry
  · exact allSteps_usable key _

theorem allSteps_accessToken (hlock : ∀ op : Op, op.isLocking = true → allowed op) :
    (client.accessToken key).AllSteps allowed expected := by
  refine Program.allSteps_bind (allSteps_loadEntry hload) fun entry => ?_
  refine Program.allSteps_bind (allSteps_isDue hgrant entry) fun due => ?_
  split
  · cases client.mode with
    | independent => exact allSteps_refreshed hgrant hsave entry
    | singleFlight => exact allSteps_withSlot hlock (allSteps_refreshAgain hgrant hsave hload)
  · exact allSteps_usable key _

end

end Client
end TokenKeeper
