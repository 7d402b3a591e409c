import TokenKeeper.Decorator
import TokenKeeper.Proofs.Client.SingleFlight
import TokenKeeper.Proofs.Host

/-!
# Where tokens go

A request for a host that is not covered is left alone, and so is the world. One for a covered host
either gets the token of its caller, in place of all that stood under `authorization`, or keeps its
headers and is not sent. Nothing is sent to the protected host but what `send` sends last.
-/
namespace TokenKeeper

/-! ### Headers -/

namespace Headers

def named (headers : Headers) (name : String) : Headers := headers.filter (·.name == name)

def Allowed (value : String) : Prop := ∀ b ∈ Utf8.encode value, b = 9 ∨ 32 ≤ b ∧ b ≠ 127

theorem isValue_iff (value : String) : isValue value = true ↔ Allowed value := by
  simp [isValue, isValueByte, Allowed, or_comm]

theorem named_replace (headers : Headers) (h : Header) (name : String) :
    (headers.replace h).named name = if name = h.name then [h] else headers.named name := by
  rw [replace, named, List.filter_append, List.filter_filter]
  by_cases hname : name = h.name
  · have hothers : headers.filter (fun g => g.name == name && g.name != h.name) = [] := by
      simp [hname]
    rw [hothers, hname]
    simp
  · have hsame : headers.filter (fun g => g.name == name && g.name != h.name) =
        headers.named name := by
      refine List.filter_congr fun g _ => ?_
      by_cases hg : g.name = name <;> simp [hg, hname]
    rw [hsame]
    simp [hname, Ne.symm hname]

end Headers

/-! ### Steps that send nothing -/

def Op.isSending : Op → Bool
  | .send _ => true
  | _ => false

theorem World.sent_perform {op : Op} (h : op.isSending = false) (w : World) :
    (World.perform op w).2.sent = w.sent := by
  cases houter : op.isOuter with
  | false => exact (World.sameOutside_perform houter w).sent
  | true => cases op <;> first | contradiction | rfl

def Program.SendsNothing {α : Type} (p : Program α) : Prop :=
  p.AllSteps (fun op => op.isSending = false) fun _ _ => True

theorem Program.SendsNothing.sent_run {α : Type} {p : Program α} (h : p.SendsNothing) (w : World) :
    (p.run World.perform w).2.sent = w.sent :=
  h.run (fun _ v hop hv => ⟨trivial, (World.sent_perform hop v).trans hv⟩) rfl

theorem Program.StoreOnly.sendsNothing {α : Type} {p : Program α} (h : p.StoreOnly) :
    p.SendsNothing := by
  refine h.mono fun op hop => ?_
  cases op with
  | send headers => rcases hop with hop | hop <;> cases hop
  | _ => rfl

namespace Client

theorem sendsNothing_accessToken {client : Client}
    (hstore : ∀ store ∈ client.store, store.StoreOnly) (key : String) :
    (client.accessToken key).SendsNothing := by
  refine allSteps_accessToken (fun op hop => ?_) (fun store hsome tokens expiresAt => ?_)
    (fun store hsome => ?_) fun op hop => ?_
  · cases op <;> first | contradiction | rfl
  · exact ((hstore store hsome).save key tokens none expiresAt).sendsNothing
  · exact ((hstore store hsome).load key).sendsNothing
  · cases op <;> first | contradiction | rfl

/-! ### Decorating and sending -/

def Covers (client : Client) (host : Option String) : Prop :=
  ∃ h ∈ host, Host.Within client.apiHost.toList h.toList

/-- What a token, or the failure to get one, makes of the headers of a request. -/
inductive Decorated (headers : Headers) :
    Except Failure String → Except Failure Unit → Headers → Prop
  | done {token : String} {after : Headers} (hallowed : Headers.Allowed ("Bearer " ++ token))
    (hafter : ∀ name, after.named name =
      if name = authorization then [⟨authorization, "Bearer " ++ token, true⟩]
      else headers.named name) :
    Decorated headers (.ok token) (.ok ()) after
  | refused {token : String} (hallowed : ¬ Headers.Allowed ("Bearer " ++ token)) :
    Decorated headers (.ok token) (.error .headerValue) headers
  | failed (e : Failure) : Decorated headers (.error e) (.error e) headers

variable (client : Client) (key : String) (host : Option String) (headers : Headers)

theorem protects_iff : client.protects host = true ↔ client.Covers host := by
  unfold protects Covers
  cases host with
  | none => simp
  | some host => simp [Host.matchesHost_iff]

variable {client headers}

theorem Decorated.headers_of_error {outcome : Except Failure String} {e : Failure}
    {after : Headers} (h : Decorated headers outcome (.error e) after) : after = headers := by
  cases h <;> rfl

section

variable (headers) {σ : Type} (act : (op : Op) → σ → op.Answer × σ) (s : σ)

theorem run_apply_elsewhere (h : client.protects host = false) :
    (client.apply key host headers).run act s = (.ok (.ok (), headers), s) := by
  unfold apply
  rw [h]
  rfl

theorem run_apply_covered (h : client.protects host = true) : ∃ result after,
    (client.apply key host headers).run act s =
      (.ok (result, after), ((client.accessToken key).run act s).2) ∧
    Decorated headers ((client.accessToken key).run act s).1 result after := by
  unfold apply
  rw [h, if_pos rfl]
  change ∃ result after, ((client.accessToken key).attempt.bind _).run act s = _ ∧ _
  rw [Program.run_bind, Program.run_attempt]
  cases (client.accessToken key).run act s with
  | mk outcome s' =>
    cases outcome with
    | error e => exact ⟨_, _, rfl, .failed e⟩
    | ok token =>
      have hvalue := Headers.isValue_iff ("Bearer " ++ token)
      simp only [bearer]
      cases hisValue : Headers.isValue ("Bearer " ++ token) with
      | true => exact ⟨_, _, rfl, .done (hvalue.mp hisValue) (Headers.named_replace headers _)⟩
      | false =>
        rw [hisValue] at hvalue
        exact ⟨_, _, rfl, .refused fun hallowed => Bool.false_ne_true (hvalue.mpr hallowed)⟩

end

variable {w w' : World} {after : Headers}

theorem run_send_decorated
    (h : (client.apply key host headers).run World.perform w = (.ok (.ok (), after), w')) :
    ∃ answer, (client.send key host headers).run World.perform w =
      (answer, { w' with sent := after :: w'.sent }) := by
  refine ⟨w'.host.elim (.error .requestUnsent) .ok, ?_⟩
  change ((client.apply key host headers).bind _).run World.perform w = _
  rw [Program.run_bind, h]
  have hsend : World.perform (.send after) w' = (w'.host, { w' with sent := after :: w'.sent }) :=
    rfl
  simp only [Program.ofExcept, Program.perform, bind, Program.bind, Program.run, hsend]
  cases w'.host <;> rfl

theorem run_send_failed {e : Failure}
    (h : (client.apply key host headers).run World.perform w = (.ok (.error e, after), w')) :
    (client.send key host headers).run World.perform w = (.error e, w') := by
  change ((client.apply key host headers).bind _).run World.perform w = _
  rw [Program.run_bind, h]
  rfl

/-- A request for a host that is not covered keeps its headers, and nothing happens. One for a
covered host is decorated with the access token of the caller or keeps its headers; what happens is
what happens for an access token. A request that could not be decorated is not sent. -/
theorem apply_all_or_nothing (hstore : ∀ store ∈ client.store, store.StoreOnly) (headers : Headers)
    (w : World) : ∃ result after w',
      (client.apply key host headers).run World.perform w = (.ok (result, after), w') ∧
      (¬ client.Covers host → result = .ok () ∧ after = headers ∧ w' = w) ∧
      (client.Covers host → w' = ((client.accessToken key).run World.perform w).2 ∧
        Decorated headers ((client.accessToken key).run World.perform w).1 result after) ∧
      (∀ e, result = .error e → after = headers ∧ w'.sent = w.sent ∧
        (client.send key host headers).run World.perform w = (.error e, w')) ∧
      (result = .ok () →
        ((client.send key host headers).run World.perform w).2.sent = after :: w.sent) := by
  have hunsent := (sendsNothing_accessToken hstore key).sent_run w
  cases hprotects : client.protects host with
  | false =>
    have hcovers : ¬ client.Covers host := by
      rw [← protects_iff, hprotects]
      exact Bool.false_ne_true
    have happly := run_apply_elsewhere key host headers World.perform w hprotects
    refine ⟨_, _, _, happly, fun _ => ⟨rfl, rfl, rfl⟩, fun h => absurd h hcovers, nofun, ?_⟩
    intro _
    obtain ⟨answer, hsend⟩ := run_send_decorated key host happly
    rw [hsend]
  | true =>
    have hcovers : client.Covers host := (protects_iff client host).mp hprotects
    obtain ⟨result, after, happly, hdecorated⟩ :=
      run_apply_covered key host headers World.perform w hprotects
    refine ⟨_, _, _, happly, fun h => absurd hcovers h, fun _ => ⟨rfl, hdecorated⟩, ?_, ?_⟩
    · rintro e rfl
      exact ⟨hdecorated.headers_of_error, hunsent, run_send_failed key host happly⟩
    · rintro rfl
      obtain ⟨answer, hsend⟩ := run_send_decorated key host happly
      rw [hsend, ← hunsent]

end Client

/-! ### A request with two headers for one caller -/

namespace Decorating

def client : Client := { Client.new ⟨"default", "id", "secret"⟩ with store := some .memory }

def expiry : Instant := (Instant.epoch.addSeconds? 270).getD .epoch

def world : World :=
  { World.isolated .epoch .empty with
    memory := [("u1", ⟨⟨"at_1", "rt_1", 300⟩, none, expiry⟩)] }

def headers : Headers :=
  [⟨authorization, "Basic a", false⟩, ⟨"accept", "*/*", false⟩, ⟨authorization, "Basic b", false⟩]

theorem one_bearer : (∀ store ∈ client.store, store.StoreOnly) ∧ ∃ after,
    ((client.apply "u1" (some "EU.api.mangadex.org.") headers).run World.perform world).1 =
      .ok (.ok (), after) ∧
    after.named authorization = [⟨authorization, "Bearer at_1", true⟩] ∧
    after.named "accept" = headers.named "accept" := by
  have hstore : ∀ store ∈ client.store, store.StoreOnly := by
    rintro _ ⟨⟩
    exact TokenStore.memory_storeOnly
  have hcovers : client.Covers (some "EU.api.mangadex.org.") :=
    (Client.protects_iff client _).mp (by decide)
  have htoken : ((client.accessToken "u1").run World.perform world).1 = .ok "at_1" := rfl
  obtain ⟨result, after, w', happly, -, hcovered, -⟩ := Client.apply_all_or_nothing "u1"
    (some "EU.api.mangadex.org.") hstore headers world
  obtain ⟨-, hdecorated⟩ := hcovered hcovers
  rw [htoken] at hdecorated
  cases hdecorated with
  | done _ hafter =>
    exact ⟨hstore, after, congrArg Prod.fst happly, hafter authorization, hafter "accept"⟩
  | refused hallowed => exact absurd ((Headers.isValue_iff "Bearer at_1").mp (by decide)) hallowed

end Decorating
end TokenKeeper
