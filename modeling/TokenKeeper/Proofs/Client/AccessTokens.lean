import TokenKeeper.Proofs.Client.Grants
import TokenKeeper.Proofs.Client.Stages

/-!
# When a pair is refreshed

What a client does for an access token is decided by the stored entry and the clock alone: there is
none, it has expired, it is due, or it is handed out. Only for a due pair is there a request, and
just one, in both modes. A pair that lives shorter than the margin has expired when it is stored, so
it is never refreshed.
-/
namespace TokenKeeper

/-- What an answer grants, when it is stored. -/
def Exchange.granted (x : Exchange) (grant : GrantKind) (now : Instant) : Except Failure Granted :=
  match x.tokens grant with
  | .error e => .error e
  | .ok tokens =>
    match tokens.expiresAt? now with
    | .error e => .error e
    | .ok expiresAt => .ok ⟨tokens, expiresAt, true⟩

namespace Client

/-! ### What there is to do -/

/-- The form for a new pair. Id and secret are those of the stored registration if it has both, and
else those of the default one. -/
def renewal (client : Client) (e : StoredEntry) : Form :=
  let (id, secret) := (Credentials.complete? e.credentials).getD
    (client.defaults.clientId, client.defaults.clientSecret)
  [("grant_type", "refresh_token"), ("refresh_token", e.tokens.refreshToken), ("client_id", id),
    ("client_secret", secret)]

/-- What a refresh hands out, given the answer of the endpoint. -/
def renewed (key : String) (now : Instant) (x : Exchange) : Except Failure String :=
  (x.granted .refresh now).bind fun g => usableResult key g.tokens.accessToken

/-- What is handed out for an entry and which forms are sent. -/
def verdict (client : Client) (key : String) (now : Instant) (x : Exchange) :
    Option StoredEntry → Except Failure String × List Form
  | none => (.error (.nothingStored key), [])
  | some e =>
    if e.isExpiredAt now then (.error (.expired key), [])
    else if client.needsRefresh now e.expiresAt then (renewed key now x, [client.renewal e])
    else (usableResult key e.tokens.accessToken, [])

variable (client : Client)

theorem renewal_eq (e : StoredEntry) :
    refreshForm e.tokens.refreshToken (client.resolve e.credentials) = client.renewal e := by
  unfold renewal resolve Credentials.complete?
  cases e.credentials with
  | none => rfl
  | some c =>
    rw [Option.filter_some]
    cases hc : c.isComplete <;> simp [hc, refreshForm, GrantKind.name]

theorem renewal_of_looksLike {e e' : StoredEntry} (h : e.LooksLike e') :
    client.renewal e = client.renewal e' := by
  rw [renewal, renewal, h.registration, h.refreshToken]

section

variable {key : String} {now : Instant} {x : Exchange} {e : StoredEntry}

theorem verdict_of_expired (h : e.isExpiredAt now = true) :
    client.verdict key now x (some e) = (.error (.expired key), []) := if_pos h

theorem verdict_of_due (h : e.isExpiredAt now = false)
    (hdue : client.needsRefresh now e.expiresAt = true) :
    client.verdict key now x (some e) = (renewed key now x, [client.renewal e]) := by
  simp [verdict, h, hdue]

theorem verdict_of_good (h : e.isExpiredAt now = false)
    (hdue : client.needsRefresh now e.expiresAt = false) :
    client.verdict key now x (some e) = (usableResult key e.tokens.accessToken, []) := by
  simp [verdict, h, hdue]

end

theorem verdict_shown (b : StoreKind) (key : String) (now : Instant) (x : Exchange)
    (e : Option StoredEntry) :
    client.verdict key now x (e.map (b.shown key)) = client.verdict key now x e := by
  cases e with
  | none => rfl
  | some e =>
    have hlooks := b.shown_looksLike key e
    rw [Option.map_some, verdict, verdict, StoredEntry.isExpiredAt, StoredEntry.isExpiredAt,
      hlooks.expiresAt, hlooks.accessToken, client.renewal_of_looksLike hlooks]

/-! ### Runs -/

section

variable {b : StoreKind} {m : Dict StoredEntry} {w : World}

theorem run_usable (key accessToken : String) (w : World) :
    (usable key accessToken).run World.perform w = (usableResult key accessToken, w) := by
  unfold usable usableResult
  split <;> rfl

theorem run_ask_on (h : b.image m w) (call : GrantCall) (hcall : call.isRefused = false) :
    ∃ w', ((client.on b).ask call).run World.perform w =
        (w.endpoint.respond.1.granted call.kind w.clock, w') ∧ w'.posts = call.form :: w.posts := by
  have hasked : b.image m (w.asked call.kind call.form) :=
    b.keeps.frame h (w.sameInside_asked call.kind call.form)
  have hposts : (w.asked call.kind call.form).posts = call.form :: w.posts := rfl
  have hclock : (w.asked call.kind call.form).clock = w.clock := rfl
  rw [run_ask _ call w hcall, Exchange.granted]
  cases w.endpoint.respond.1.tokens call.kind with
  | error e => exact ⟨_, rfl, hposts⟩
  | ok tokens =>
    simp only [run_persist_on, hclock]
    cases tokens.expiresAt? w.clock with
    | error e => exact ⟨_, rfl, hposts⟩
    | ok expiresAt =>
      obtain ⟨w', hsave, -, hout⟩ :=
        b.keeps.save hasked call.key tokens call.registration expiresAt
      simp only [hsave]
      exact ⟨w', rfl, hout.posts.trans hposts⟩

theorem run_refreshed (h : b.image m w) (key : String) (e : StoredEntry) :
    ∃ w', (((client.on b).refreshEntry key e).bind fun tokens =>
        usable key tokens.accessToken).run World.perform w =
          (renewed key w.clock w.endpoint.respond.1, w') ∧
      w'.posts = client.renewal e :: w.posts := by
  let call : GrantCall := .refresh key e.tokens (client.resolve e.credentials)
  have hform : call.form = client.renewal e := client.renewal_eq e
  obtain ⟨w', hask, hposts⟩ := client.run_ask_on h call rfl
  refine ⟨w', ?_, by rw [hposts, hform]⟩
  change ((((client.on b).ask call).bind _).bind _).run World.perform w = _
  have hkind : call.kind = .refresh := rfl
  rw [Program.bind_assoc, Program.run_bind, hask, hkind, renewed]
  cases w.endpoint.respond.1.granted .refresh w.clock with
  | error f => rfl
  | ok g => exact run_usable key g.tokens.accessToken w'

theorem run_refreshed_shown (h : b.image m w) (key : String) (e : StoredEntry) {v : World}
    (hout : v.SameOutside w) : ∃ w', (((client.on b).refreshEntry key (b.shown key e)).bind
        fun tokens => usable key tokens.accessToken).run World.perform w =
          (renewed key v.clock v.endpoint.respond.1, w') ∧
      w'.posts = client.renewal e :: v.posts := by
  obtain ⟨w', hrun, hposts⟩ := client.run_refreshed h key (b.shown key e)
  refine ⟨w', ?_, ?_⟩
  · rw [hrun, hout.clock, hout.endpoint]
  · rw [hposts, hout.posts, client.renewal_of_looksLike (b.shown_looksLike key e)]

theorem run_loadEntry (h : b.image m w) (key : String) :
    ∃ w', b.image (Memory.load m w.clock key).2 w' ∧ w.SameOutside w' ∧
      ∀ {α : Type} (next : StoredEntry → Program α),
        (((client.on b).loadEntry key).bind next).run World.perform w =
          match (Memory.load m w.clock key).1 with
          | .ok e => (next (b.shown key e)).run World.perform w'
          | .error f => (.error f, w') := by
  obtain ⟨w', hrun, himage, hout⟩ := b.keeps.load h key
  refine ⟨w', himage, hout, fun next => ?_⟩
  change ((b.store.load key).bind next).run World.perform w = _
  rw [Program.run_bind, hrun]
  cases (Memory.load m w.clock key).1 <;> rfl

theorem run_withSlot {α : Type} (key : String) (body : Program α) (w : World) :
    ∃ taken given : Flight, (withSlot key body).run World.perform w =
      ((body.run World.perform { w with flight := taken }).1,
        { (body.run World.perform { w with flight := taken }).2 with flight := given }) := by
  let slot := (w.flight.checkout key).1
  let taken := (w.flight.checkout key).2.acquire slot
  let done := (body.run World.perform { w with flight := taken }).2.flight
  refine ⟨taken, ((done.release slot).retire slot).forget slot, ?_⟩
  change (body.attempt.bind _).run World.perform { w with flight := taken } = _
  rw [Program.run_bind, Program.run_attempt]
  cases (body.run World.perform { w with flight := taken }).1 <;> rfl

theorem run_refreshAgain (h : b.image m w) {key : String} {e : StoredEntry}
    (he : Dict.get? m key = some e) (hlive : e.isExpiredAt w.clock = false)
    (hdue : client.needsRefresh w.clock e.expiresAt = true) :
    ∃ w', ((client.on b).refreshAgain key).run World.perform w =
        (renewed key w.clock w.endpoint.respond.1, w') ∧
      w'.posts = client.renewal e :: w.posts := by
  obtain ⟨v, himage, hout, hload⟩ := client.run_loadEntry h key
  rw [Memory.load_live he hlive] at himage hload
  obtain ⟨w', hrun, hposts⟩ := client.run_refreshed_shown himage key e hout
  refine ⟨w', ?_, hposts⟩
  change (((client.on b).loadEntry key).bind _).run World.perform w = _
  rw [hload, ← hrun]
  have hshown : (client.on b).needsRefresh v.clock (b.shown key e).expiresAt = true := by
    rw [(b.shown_looksLike key e).expiresAt, hout.clock]
    exact hdue
  change Program.run World.perform (if (client.on b).needsRefresh v.clock
    (b.shown key e).expiresAt then _ else _) v = _
  rw [hshown]
  rfl

theorem run_due (h : b.image m w) {key : String} {e : StoredEntry} (he : Dict.get? m key = some e)
    (hlive : e.isExpiredAt w.clock = false)
    (hdue : client.needsRefresh w.clock e.expiresAt = true) :
    ∃ w', Program.run World.perform (match client.mode with
        | .independent => ((client.on b).refreshEntry key (b.shown key e)).bind fun tokens =>
          usable key tokens.accessToken
        | .singleFlight => withSlot key ((client.on b).refreshAgain key)) w =
          (renewed key w.clock w.endpoint.respond.1, w') ∧
      w'.posts = client.renewal e :: w.posts := by
  cases client.mode with
  | independent => exact client.run_refreshed_shown h key e (.refl w)
  | singleFlight =>
    -- The load under the lock finds the entry as the first load left it, still due.
    obtain ⟨taken, given, hslot⟩ := run_withSlot key ((client.on b).refreshAgain key) w
    have htaken : b.image m { w with flight := taken } :=
      b.keeps.frame h ⟨rfl, rfl, rfl, rfl, rfl⟩
    obtain ⟨w', hrun, hposts⟩ := client.run_refreshAgain htaken he hlive hdue
    rw [hrun] at hslot
    exact ⟨_, hslot, hposts⟩

theorem run_accessToken (h : b.image m w) (key : String) :
    ∃ w', ((client.on b).accessToken key).run World.perform w =
        ((client.verdict key w.clock w.endpoint.respond.1 (Dict.get? m key)).1, w') ∧
      w'.posts =
        (client.verdict key w.clock w.endpoint.respond.1 (Dict.get? m key)).2 ++ w.posts := by
  obtain ⟨v, himage, hout, hload⟩ := client.run_loadEntry h key
  cases he : Dict.get? m key with
  | none =>
    rw [Memory.load_absent he] at hload
    exact ⟨v, hload _, hout.posts⟩
  | some e =>
    cases hexpired : e.isExpiredAt w.clock with
    | true =>
      rw [Memory.load_expired he hexpired] at hload
      rw [client.verdict_of_expired hexpired]
      exact ⟨v, hload _, hout.posts⟩
    | false =>
      rw [Memory.load_live he hexpired] at himage hload
      have hlooks := b.shown_looksLike key e
      have hrun : ((client.on b).accessToken key).run World.perform w =
          Program.run World.perform (if client.needsRefresh v.clock (b.shown key e).expiresAt then
              match client.mode with
              | .independent => ((client.on b).refreshEntry key (b.shown key e)).bind fun tokens =>
                usable key tokens.accessToken
              | .singleFlight => withSlot key ((client.on b).refreshAgain key)
            else usable key (b.shown key e).tokens.accessToken) v :=
        hload _
      rw [hlooks.expiresAt, hout.clock, hlooks.accessToken] at hrun
      rw [hrun]
      cases hdue : client.needsRefresh w.clock e.expiresAt with
      | false =>
        rw [client.verdict_of_good hexpired hdue, if_neg (by decide), run_usable]
        exact ⟨v, rfl, hout.posts⟩
      | true =>
        rw [← hout.clock] at hexpired hdue
        obtain ⟨w', hdone, hposts⟩ := client.run_due himage he hexpired hdue
        rw [hout.clock] at hexpired hdue
        rw [hout.posts] at hposts
        rw [client.verdict_of_due hexpired hdue, if_pos rfl, hdone, hout.clock, hout.endpoint]
        exact ⟨w', rfl, hposts⟩

theorem run_accessToken_held (h : b.image m w) (key : String) :
    ∃ w', ((client.on b).accessToken key).run World.perform w =
        ((client.verdict key w.clock w.endpoint.respond.1 (b.held? w key)).1, w') ∧
      w'.posts =
        (client.verdict key w.clock w.endpoint.respond.1 (b.held? w key)).2 ++ w.posts := by
  rw [StoreKind.held?_of_image h, verdict_shown]
  exact client.run_accessToken h key

end

/-! ### The decision -/

theorem usableResult_ne_empty (key accessToken : String) :
    usableResult key accessToken ≠ .ok "" := by
  unfold usableResult
  split
  · simp
  · next hne => simpa using hne

theorem verdict_ne_empty (key : String) (now : Instant) (x : Exchange) (e : Option StoredEntry) :
    (client.verdict key now x e).1 ≠ .ok "" := by
  unfold verdict
  split
  · simp
  · split
    · simp
    · split
      · unfold renewed
        cases x.granted .refresh now with
        | error f => simp [Except.bind]
        | ok g => exact usableResult_ne_empty key g.tokens.accessToken
      · exact usableResult_ne_empty key _

/-- In every state that a back end can come to, on a medium that takes writes, a client asks for a
new pair exactly when the stored one has not expired and its expiry is not past the skew: once, with
the stored refresh token, under the stored registration or the default one. It hands out the stored
access token if the expiry is past the skew, and finds nothing if there is no pair or it has
expired. -/
theorem accessToken_exact {b : StoreKind} {w : World} (h : b.Reached w) (hnoFault : w.fault = none)
    (key : String) :
    ∃ r w', ((client.on b).accessToken key).run World.perform w = (r, w') ∧ r ≠ .ok "" ∧
      (b.held? w key = none → r = .error (.nothingStored key) ∧ w'.posts = w.posts) ∧
      ∀ e, b.held? w key = some e →
        (e.expiresAt.before w.clock = true →
          r = .error (.expired key) ∧ w'.posts = w.posts) ∧
        (e.expiresAt.before w.clock = false →
          w.clock.position e.expiresAt ≤ w.clock.total + client.skew.total →
          r = renewed key w.clock w.endpoint.respond.1 ∧ w'.posts = client.renewal e :: w.posts) ∧
        (w.clock.total + client.skew.total < w.clock.position e.expiresAt →
          r = usableResult key e.tokens.accessToken ∧ w'.posts = w.posts) := by
  obtain ⟨m, himage⟩ := h.image
  rw [World.withoutFault_of_noFault hnoFault] at himage
  obtain ⟨w', hrun, hposts⟩ := client.run_accessToken_held himage key
  refine ⟨_, w', hrun, client.verdict_ne_empty _ _ _ _, fun hnone => ?_, fun e he => ?_⟩
  · rw [hnone] at hposts ⊢
    exact ⟨rfl, hposts⟩
  · rw [he] at hposts ⊢
    refine ⟨fun hexpired => ?_, fun hlive hdue => ?_, fun hgood => ?_⟩
    · rw [client.verdict_of_expired hexpired] at hposts ⊢
      exact ⟨rfl, hposts⟩
    · rw [← client.needsRefresh_iff] at hdue
      rw [client.verdict_of_due hlive hdue] at hposts ⊢
      exact ⟨rfl, hposts⟩
    · -- An expiry ahead of the skew is ahead of the clock, also where a leap second is passed.
      have hlive : e.isExpiredAt w.clock = false := by
        by_contra hexpired
        have hle := Instant.position_le_of_before (Bool.not_eq_false _ ▸ hexpired)
        omega
      have hnoFault : client.needsRefresh w.clock e.expiresAt = false := by
        rw [Bool.eq_false_iff, ne_eq, client.needsRefresh_iff]
        omega
      rw [client.verdict_of_good hlive hnoFault] at hposts ⊢
      exact ⟨rfl, hposts⟩

def lastMoment : World :=
  (TokenStore.memory.answer (.save "u1" ⟨"at_1", "rt_1", 300⟩ (some ⟨"u1", "cid", ""⟩) .epoch)
    (World.isolated .epoch .empty)).2

theorem accessToken_at_expiry :
    ∃ r w', (((new ⟨"default", "id", "secret"⟩).on .memory).accessToken "u1").run World.perform
        lastMoment = (r, w') ∧
      r = .error (.unanswered .refresh) ∧
      w'.posts = [[("grant_type", "refresh_token"), ("refresh_token", "rt_1"), ("client_id", "id"),
        ("client_secret", "secret")]] := by
  have hfresh : StoreKind.memory.Fresh (World.isolated .epoch .empty) := rfl
  have hreached : StoreKind.memory.Reached lastMoment := .use (.fresh hfresh) _
  obtain ⟨r, w', hrun, -, -, hsome⟩ :=
    (new ⟨"default", "id", "secret"⟩).accessToken_exact hreached rfl "u1"
  obtain ⟨-, hdue, -⟩ := hsome ⟨⟨"at_1", "rt_1", 300⟩, some ⟨"u1", "cid", ""⟩, .epoch⟩ rfl
  obtain ⟨hresult, hposts⟩ := hdue (Instant.before_irrefl .epoch) (by decide)
  exact ⟨r, w', hrun, hresult, hposts⟩

/-! ### Pairs that have just been stored -/

theorem kind_of_tokens {x : Exchange} {grant : GrantKind} {f : Failure}
    (h : x.tokens grant = .error f) : f.kind ≠ .notFound := by
  unfold Exchange.tokens at h
  split at h
  · cases h
    simp [Failure.kind]
  · split at h
    · split at h
      · cases h
        simp [Failure.kind]
      · split at h <;> cases h
        simp [Failure.kind]
    · cases h
      simp [Failure.kind]

theorem kind_of_expiresAt {tokens : Tokens} {now : Instant} {f : Failure}
    (h : tokens.expiresAt? now = .error f) : f.kind ≠ .notFound := by
  unfold Tokens.expiresAt? at h
  split at h <;> cases h
  simp [Failure.kind]

theorem kind_of_granted {x : Exchange} {grant : GrantKind} {now : Instant} {f : Failure}
    (h : x.granted grant now = .error f) : f.kind ≠ .notFound := by
  unfold Exchange.granted at h
  split at h
  · next htokens =>
    cases h
    exact kind_of_tokens htokens
  · split at h
    · next hexpires =>
      cases h
      exact kind_of_expiresAt hexpires
    · cases h

theorem usableResult_cases (key accessToken : String) :
    usableResult key accessToken = .ok accessToken ∨
      usableResult key accessToken = .error (.emptyAccessToken key) := by
  unfold usableResult
  split
  · exact Or.inr rfl
  · exact Or.inl rfl

theorem kind_of_renewed {key : String} {now : Instant} {x : Exchange} {f : Failure}
    (h : renewed key now x = .error f) : f.kind ≠ .notFound := by
  unfold renewed at h
  cases hgranted : x.granted .refresh now with
  | error e =>
    rw [hgranted] at h
    cases h
    exact kind_of_granted hgranted
  | ok g =>
    rw [hgranted] at h
    change usableResult key g.tokens.accessToken = .error f at h
    rcases usableResult_cases key g.tokens.accessToken with hok | hempty
    · rw [hok] at h
      cases h
    · rw [hempty] at h
      cases h
      simp [Failure.kind]

theorem verdict_of_live {key : String} {now : Instant} (x : Exchange) {e : StoredEntry}
    (h : e.isExpiredAt now = false) :
    (client.verdict key now x (some e)).1 = .ok e.tokens.accessToken ∨
      (client.verdict key now x (some e)).1 = .error (.emptyAccessToken key) ∨
      client.verdict key now x (some e) = (renewed key now x, [client.renewal e]) := by
  cases hdue : client.needsRefresh now e.expiresAt with
  | true => exact Or.inr (Or.inr (client.verdict_of_due h hdue))
  | false =>
    rw [client.verdict_of_good h hdue]
    exact (usableResult_cases key e.tokens.accessToken).imp_right Or.inl

/-- A pair that is reported as persisted can be used at once if it lives as long as the margin: it
is handed out, or refreshed by its own refresh token. A shorter one has expired and is lost. -/
theorem accessToken_of_persisted {b : StoreKind} {w w' : World} {call : GrantCall} {g : Granted}
    (h : b.Reached w) (hask : ((client.on b).ask call).run World.perform w = (.ok g, w'))
    (hpersisted : g.persisted = true) :
    ∃ r w'', ((client.on b).accessToken call.key).run World.perform w' = (r, w'') ∧
      (30 ≤ g.tokens.expiresIn.toInt →
        ((∃ token, r = .ok token) ∨ r = .error (.emptyAccessToken call.key) ∨
          ∃ c, w''.posts = refreshForm g.tokens.refreshToken c :: w'.posts) ∧
        ∀ f, r = .error f → f.kind ≠ .notFound) ∧
      (g.tokens.expiresIn.toInt < 30 → r = .error (.expired call.key) ∧ w''.posts = w'.posts) := by
  obtain ⟨m, hcontents⟩ := h.contents
  have hended := client.ended_ask (some b) call w
  change call.Ended client.policy (some b) w (((client.on b).ask call).run World.perform w).2
    (((client.on b).ask call).run World.perform w).1 at hended
  rw [hask] at hended
  cases hended with
  | kept => cases hpersisted
  | @stored kind tokens expiresAt hb htokens hexpires hsave =>
    cases hb
    have hasked := w.sameInside_asked call.kind call.form
    have himage := StoreKind.image_of_save (hcontents.congr hasked) hsave
    have hclock : w'.clock = w.clock := by
      have hout := (b.saved_save call.key tokens call.registration expiresAt
        (w.asked call.kind call.form)).1
      rw [hsave] at hout
      exact hout.clock
    obtain ⟨w'', hrun, hposts⟩ := client.run_accessToken himage call.key
    obtain ⟨e, he, rfl, rfl⟩ := Memory.get?_save m call.key tokens call.registration expiresAt
    rw [he, hclock] at hrun hposts
    have hexpired : e.isExpiredAt w.clock = true ↔ e.tokens.expiresIn.toInt < 30 :=
      Tokens.before_expiresAt? hexpires
    refine ⟨_, w'', hrun, fun hlong => ?_, fun hshort => ?_⟩
    · have hlive : e.isExpiredAt w.clock = false := by
        rw [Bool.eq_false_iff, ne_eq, hexpired]
        exact Int.not_lt.mpr hlong
      rcases client.verdict_of_live w'.endpoint.respond.1 hlive with hok | hempty | hdue
      · refine ⟨Or.inl ⟨_, hok⟩, fun f hf => ?_⟩
        rw [hok] at hf
        cases hf
      · refine ⟨Or.inr (Or.inl hempty), fun f hf => ?_⟩
        rw [hempty] at hf
        cases hf
        simp [Failure.kind]
      · rw [hdue, ← client.renewal_eq] at hposts
        rw [hdue]
        exact ⟨Or.inr (Or.inr ⟨_, hposts⟩), fun f hf => kind_of_renewed hf⟩
    · rw [client.verdict_of_expired (hexpired.mpr hshort)] at hposts ⊢
      exact ⟨rfl, hposts⟩

theorem accessToken_after_login :
    ∃ g w' r w'', (((new ⟨"default", "id", "secret"⟩).on .memory).ask newcomer).run World.perform
        (granting ⟨"at_1", "rt_1", 30⟩) = (.ok g, w') ∧ g.persisted = true ∧
      (((new ⟨"default", "id", "secret"⟩).on .memory).accessToken "u1").run World.perform w' =
        (r, w'') ∧ ∀ f, r = .error f → f.kind ≠ .notFound := by
  have hexpires : (Tokens.mk "at_1" "rt_1" 30).expiresAt? .epoch = .ok .epoch := rfl
  have hlogin := (new ⟨"default", "id", "secret"⟩).run_newcomer hexpires
  have hfresh : StoreKind.memory.Fresh (granting ⟨"at_1", "rt_1", 30⟩) := rfl
  obtain ⟨r, w'', hrun, hlong, -⟩ :=
    (new ⟨"default", "id", "secret"⟩).accessToken_of_persisted (.fresh hfresh) hlogin rfl
  obtain ⟨-, hfound⟩ := hlong (by decide)
  exact ⟨_, _, r, w'', hlogin, rfl, hrun, hfound⟩

/-- A pair without a lifetime is stored as one that has expired, so that no use of it is made. -/
theorem accessToken_after_short_login :
    ∃ g w' w'', (((new ⟨"default", "id", "secret"⟩).on .memory).ask newcomer).run World.perform
        (granting ⟨"at_1", "rt_1", 0⟩) = (.ok g, w') ∧ g.persisted = true ∧
      g.tokens = ⟨"at_1", "rt_1", 0⟩ ∧
      (((new ⟨"default", "id", "secret"⟩).on .memory).accessToken "u1").run World.perform w' =
        (.error (.expired "u1"), w'') ∧
      (Failure.expired "u1").kind = .notFound ∧ w''.posts = w'.posts ∧ w''.memory = [] := by
  have hexpires : (Tokens.mk "at_1" "rt_1" 0).expiresAt? .epoch =
      .ok ⟨-30, 0, by decide, by decide, by decide, by decide⟩ := rfl
  have hlogin := (new ⟨"default", "id", "secret"⟩).run_newcomer hexpires
  exact ⟨_, _, _, hlogin, rfl, rfl, rfl, rfl, rfl, rfl⟩

end Client
end TokenKeeper
