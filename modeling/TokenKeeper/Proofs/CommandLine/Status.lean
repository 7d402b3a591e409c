import TokenKeeper.CommandLine.Run
import TokenKeeper.Proofs.Client.Backends
import TokenKeeper.Proofs.Client.Programs
import TokenKeeper.Proofs.Client.Steps
import TokenKeeper.Proofs.Config.Validity
import TokenKeeper.Proofs.Store.Expiry

/-!
# What the status says of a registration

The status of a live pair says whether a registration is stored with it. A client goes by more than
that: the stored one has to be complete. So the status tells under which registration a pair will be
refreshed exactly if no half of one is stored, or rather shown: plain documents show none, while the
other back ends show what was saved. A half comes from a login under a configuration without a
client secret, or from a save that is given one; without these, all back ends print the same.
-/
namespace TokenKeeper

/-! ### Stored and default registrations -/

namespace Credentials

/-- Every client refreshes under what is stored. -/
def AlwaysUsed (stored : Option Credentials) : Prop :=
  ∃ c, stored = some c ∧ ∀ client : Client, client.resolve stored = c

/-- Every client refreshes under its default registration. -/
def NeverUsed (stored : Option Credentials) : Prop :=
  ∀ client : Client, client.resolve stored = client.defaults

variable {stored : Option Credentials}

theorem alwaysUsed_iff : AlwaysUsed stored ↔ ∃ c ∈ stored, c.isComplete = true := by
  constructor
  · rintro ⟨c, rfl, hall⟩
    refine ⟨c, rfl, ?_⟩
    cases hc : c.isComplete with
    | true => rfl
    | false =>
      -- Clients with different defaults would agree on one registration.
      have hdefault (d : Credentials) : d = c := by
        have h := hall (.new d)
        rwa [Client.resolve, hc, if_neg (by decide)] at h
      have hsame := (hdefault ⟨"", "", ""⟩).trans (hdefault ⟨"a", "", ""⟩).symm
      exact absurd hsame (by decide)
  · rintro ⟨c, hstored, hc⟩
    obtain rfl : stored = some c := hstored
    exact ⟨c, rfl, fun client => if_pos hc⟩

theorem neverUsed_iff : NeverUsed stored ↔ ∀ c ∈ stored, c.isComplete = false := by
  constructor
  · rintro hall c hstored
    obtain rfl : stored = some c := hstored
    cases hc : c.isComplete with
    | false => rfl
    | true =>
      have hdefault (d : Credentials) : c = d := by
        have h := hall (.new d)
        rwa [Client.resolve, hc, if_pos rfl] at h
      have hsame := (hdefault ⟨"", "", ""⟩).symm.trans (hdefault ⟨"a", "", ""⟩)
      exact absurd hsame (by decide)
  · intro hall client
    cases stored with
    | none => rfl
    | some c => exact if_neg (by rw [hall c rfl]; decide)

/-- Both halves are there, or none. -/
def IsWhole (c : Credentials) : Prop := c.clientId = "" ↔ c.clientSecret = ""

theorem complete_of_given (hwhole : ∀ c ∈ stored, c.IsWhole) :
    ∀ c ∈ given stored, c.isComplete = true := by
  intro c hc
  obtain ⟨hstored, hblank⟩ := Option.filter_eq_some_iff.mp hc
  have hc' := hwhole c hstored
  simp only [isBlank, isComplete, IsWhole, Bool.not_eq_true', Bool.and_eq_false_iff,
    beq_eq_false_iff_ne, Bool.and_eq_true, bne_iff_ne, ne_eq] at hblank hc' ⊢
  tauto

end Credentials

namespace StoreConfig

theorem exists_kind_of_documentStore {s : StoreConfig} {store : TokenStore}
    (h : s.documentStore = .ok store) : ∃ b : StoreKind, store = b.store := by
  unfold documentStore at h
  split at h
  · cases h
    exact ⟨.documents, rfl⟩
  · split at h
    · cases h
    · split at h
      · next key _ =>
        cases h
        exact ⟨.sealedDocuments key, rfl⟩
      · cases h

theorem exists_kind_of_openStore {s : StoreConfig} {w w' : World} {store : TokenStore}
    (h : s.openStore w = .ok (store, w')) : ∃ b : StoreKind, store = b.store := by
  have hdocuments {opened : Except OpenFailure World}
      (h : (opened >>= fun v => s.documentStore >>= fun store => .ok (store, v)) =
        .ok (store, w')) : ∃ b : StoreKind, store = b.store := by
    obtain ⟨v, -, hrest⟩ := bind_eq_ok_iff.mp h
    obtain ⟨opened, hstore, hdone⟩ := bind_eq_ok_iff.mp hrest
    cases hdone
    exact exists_kind_of_documentStore hstore
  unfold openStore at h
  split at h
  · cases h
    exact ⟨.memory, rfl⟩
  · obtain ⟨path, -, hrest⟩ := bind_eq_ok_iff.mp h
    exact hdocuments hrest
  · obtain ⟨path, -, hrest⟩ := bind_eq_ok_iff.mp h
    exact hdocuments hrest

end StoreConfig

/-! ### What is printed -/

namespace Notice

def Says (notice : Notice) (word : String) : Prop :=
  ∃ front, notice.text = front ++ ("client_credentials=" ++ word)

/-- The notice about an entry names the registration under which it will be refreshed. -/
structure Truthful (notice : Notice) (e : StoredEntry) : Prop where
  stored : notice.Says "stored" ↔ Credentials.AlwaysUsed e.credentials
  default : notice.Says "default" ↔ Credentials.NeverUsed e.credentials

theorem liveText_eq (key : String) (expiresAt : Instant) (left : String) (registered : Bool) :
    ∃ front, liveText key expiresAt left registered =
      front ++ ("client_credentials=" ++ if registered then "stored" else "default") := by
  refine ⟨key ++ ": live, expires_at=" ++ Timestamp.offsetText expiresAt ++ " (" ++ left ++
    "s left), ", ?_⟩
  apply String.toList_inj.mp
  cases registered <;> simp [liveText, toString]

theorem getLast?_of_text_eq {notice : Notice} {front word : String} (hword : word ≠ "")
    (h : notice.text = front ++ ("client_credentials=" ++ word)) :
    notice.text.toList.getLast? = word.toList.getLast? := by
  have hc := List.getLast?_eq_some_getLast (mt String.toList_eq_nil_iff.mp hword)
  rw [h, String.toList_append, String.toList_append, List.getLast?_append, List.getLast?_append, hc]
  rfl

theorem says_live_iff (key : String) (expiresAt : Instant) (left : Int) (registered : Bool) :
    ((live key expiresAt left registered).Says "stored" ↔ registered = true) ∧
      ((live key expiresAt left registered).Says "default" ↔ registered = false) := by
  obtain ⟨front, hfront⟩ :=
    liveText_eq key expiresAt (String.ofList (Text.intChars left)) registered
  have htext : (live key expiresAt left registered).text = front ++ ("client_credentials=" ++
    if registered then "stored" else "default") := hfront
  -- The two words end in different letters.
  have hends {word : String} (hword : word ≠ "")
      (hsaid : (live key expiresAt left registered).Says word) : word.toList.getLast? =
        (if registered then "stored" else "default" : String).toList.getLast? := by
    obtain ⟨front', hfront'⟩ := hsaid
    rw [← getLast?_of_text_eq hword hfront', getLast?_of_text_eq ?_ htext]
    cases registered <;> decide
  constructor
  · constructor
    · intro hsaid
      have hlast := hends (by decide) hsaid
      cases registered with
      | true => rfl
      | false => exact absurd hlast (by decide)
    · rintro rfl
      exact ⟨front, htext⟩
  · constructor
    · intro hsaid
      have hlast := hends (by decide) hsaid
      cases registered with
      | true => exact absurd hlast (by decide)
      | false => rfl
    · rintro rfl
      exact ⟨front, htext⟩

theorem truthful_live_iff (key : String) (left : Int) (e : StoredEntry) :
    (live key e.expiresAt left e.credentials.isSome).Truthful e ↔
      ∀ c ∈ e.credentials, c.isComplete = true := by
  obtain ⟨hstored, hdefault⟩ := says_live_iff key e.expiresAt left e.credentials.isSome
  constructor
  · rintro ⟨htrue, -⟩ c hc
    have hsome : e.credentials.isSome = true := Option.isSome_of_mem hc
    obtain ⟨d, hd, hcomplete⟩ := Credentials.alwaysUsed_iff.mp (htrue.mp (hstored.mpr hsome))
    exact Option.mem_unique hd hc ▸ hcomplete
  · intro hall
    refine ⟨?_, ?_⟩
    · rw [hstored, Credentials.alwaysUsed_iff, Option.isSome_iff_exists]
      exact ⟨fun ⟨c, hc⟩ => ⟨c, hc, hall c hc⟩, fun ⟨c, hc, _⟩ => ⟨c, hc⟩⟩
    · rw [hdefault, Credentials.neverUsed_iff, Option.isSome_eq_false_iff,
        Option.isNone_iff_eq_none]
      refine ⟨fun hnone c hc => ?_, fun hnone => ?_⟩
      · rw [hnone] at hc
        cases hc
      · refine Option.eq_none_iff_forall_not_mem.mpr fun c hc => ?_
        exact absurd ((hnone c hc).symm.trans (hall c hc)) (by decide)

end Notice

namespace Command

theorem run_tellStatus {store : TokenStore} {key : String} {e : StoredEntry} {w w' : World}
    (h : (store.load key).run World.perform w = (.ok e, w')) :
    (tellStatus store key).run World.perform w =
      (.ok (.live key e.expiresAt (secondsBetween w'.clock e.expiresAt) e.credentials.isSome),
        w') := by
  refine (Program.run_bind World.perform (store.load key).attempt _ w).trans ?_
  rw [Program.run_attempt, h]
  rfl

end Command

theorem Invocation.run_status {env : Environment} {path key : String} {c : Config}
    {w opened : World} {store : TokenStore} (hload : Config.load env w.disk path = .ok c)
    (hopen : c.store.openStore w = .ok (store, opened)) :
    ∃ b : StoreKind, store = b.store ∧ (Invocation.run env ⟨path, .status key⟩ w).1 =
      ((Command.tellStatus b.store key).run World.perform opened).1.mapError .status := by
  obtain ⟨b, rfl⟩ := StoreConfig.exists_kind_of_openStore hopen
  refine ⟨b, rfl, ?_⟩
  unfold run
  rw [hload]
  simp only [hopen]
  rfl

/-! ### Histories of a store -/

inductive Use
  | run (c : Config) (command : Command)
  | call (step : StoreCall)

namespace Use

def after (b : StoreKind) (w : World) : Use → World
  | .run c command => ((command.program c b.store).run World.perform w).2
  | .call step => (b.store.answer step w).2

/-- No half of a registration is given to the store: a configuration that a caller is logged in
under has a whole one, and so has a save. -/
def IsWhole : Use → Prop
  | .run c (.login ..) => c.defaultCredentials.IsWhole
  | .call (.save _ _ credentials _) => ∀ c ∈ credentials, c.IsWhole
  | _ => True

end Use

namespace StoreKind

def after (b : StoreKind) (uses : List Use) (w : World) : World :=
  uses.foldl (Use.after b) w

def load (b : StoreKind) (key : String) (w : World) : Except Failure StoredEntry :=
  ((b.store.load key).run World.perform w).1

def status (b : StoreKind) (key : String) (w : World) : Except Failure Notice :=
  ((Command.tellStatus b.store key).run World.perform w).1

theorem status_of_load {b : StoreKind} {key : String} {e : StoredEntry} {w : World}
    (h : b.load key w = .ok e) :
    ∃ left, b.status key w = .ok (.live key e.expiresAt left e.credentials.isSome) := by
  cases hrun : (b.store.load key).run World.perform w with
  | mk r w' =>
    rw [load, hrun] at h
    obtain rfl : r = .ok e := h
    exact ⟨_, congrArg Prod.fst (Command.run_tellStatus hrun)⟩

end StoreKind

section

variable {a b : StoreKind}

theorem Command.related_program (c : Config) (command : Command) :
    Related (a.SameEntries b) (fun _ _ => True) (command.program c a.store)
      (command.program c b.store) := by
  cases command with
  | login key username password =>
    refine Related.bind ((c.buildClient .memory).related_login username password _) ?_
    exact fun _ _ _ => Related.done trivial
  | status key =>
    refine Related.bind (related_load key).attempt fun r s hend => ?_
    cases r with
    | ok e =>
      cases s with
      | ok e' => exact Related.bind (related_outer .now rfl) fun _ _ _ => Related.done trivial
      | error f => exact hend.elim
    | error f =>
      cases s with
      | ok e' => exact hend.elim
      | error f' =>
        obtain rfl : f = f' := hend
        dsimp only
        split
        · exact Related.done trivial
        · exact Related.fail f
  | header key =>
    refine Related.bind ((c.buildClient .memory).related_accessToken key) ?_
    exact fun _ _ _ => Related.done trivial

theorem Use.sameEntries_after (u : Use) {w w' : World} (h : a.SameEntries b w w') :
    a.SameEntries b (u.after a w) (u.after b w') := by
  cases u with
  | run c command => exact (command.related_program c w w' h).2
  | call step =>
    cases step with
    | save key tokens credentials expiresAt =>
      exact (related_save key tokens credentials expiresAt w w' h).2
    | load key => exact (related_load key w w' h).2
    | clock now => exact h.clock now

theorem StoreKind.sameEntries_after (uses : List Use) {w w' : World} (h : a.SameEntries b w w') :
    a.SameEntries b (a.after uses w) (b.after uses w') := by
  induction uses generalizing w w' with
  | nil => exact h
  | cons u uses ih => exact ih (u.sameEntries_after h)

end

/-! ### Whole registrations -/

/-- Every registration that is kept is complete. -/
def AllComplete (m : Dict StoredEntry) : Prop :=
  ∀ key e, Dict.get? m key = some e → ∀ c ∈ e.credentials, c.isComplete = true

theorem AllComplete.follows {m m' : Dict StoredEntry} (h : AllComplete m)
    (hm : Follows (fun _ credentials => ∀ c ∈ credentials, c.isComplete = true) m m') :
    AllComplete m' := by
  intro key e he c hc
  rcases hm key e he with hbefore | hgood
  · rw [hbefore] at hc
    obtain ⟨e', he', hc'⟩ := Option.bind_eq_some_iff.mp hc
    exact h key e' he' c hc'
  · exact hgood c hc

theorem AllComplete.save {m : Dict StoredEntry} (h : AllComplete m) {key : String}
    {tokens : Tokens} {credentials : Option Credentials} {expiresAt : Instant}
    (hwhole : ∀ c ∈ credentials, c.IsWhole) :
    AllComplete (Memory.save m key tokens credentials expiresAt) := by
  have hgiven := Credentials.complete_of_given hwhole
  refine h.follows (.insert m ?_)
  dsimp only
  cases hd : Credentials.given credentials with
  | none => exact Or.inl rfl
  | some d =>
    rw [hd] at hgiven
    exact Or.inr hgiven

inductive Op.GivesWhole : Op → Prop
  | outer {op : Op} (h : op.isOuter = true) : GivesWhole op
  | reload (key : String) : GivesWhole (.recall key)
  | keep (key : String) (tokens : Tokens) {credentials : Option Credentials} (expiresAt : Instant)
    (h : ∀ c ∈ credentials, c.IsWhole) : GivesWhole (.keep key tokens credentials expiresAt)

def Program.GivesWhole {α : Type} (p : Program α) : Prop := p.AllSteps Op.GivesWhole fun _ _ => True

def World.KeepsComplete (w : World) : Prop := AllComplete w.memory

theorem World.KeepsComplete.perform {w : World} (h : w.KeepsComplete) {op : Op}
    (hop : op.GivesWhole) : (World.perform op w).2.KeepsComplete := by
  unfold KeepsComplete at h ⊢
  cases hop with
  | outer hop => rwa [(World.sameInside_perform hop w).memory]
  | reload key => exact h.follows (.load _ w.memory w.clock key)
  | keep key tokens expiresAt hwhole => exact h.save hwhole

theorem World.KeepsComplete.run {α : Type} {p : Program α} (hp : p.GivesWhole) {w : World}
    (h : w.KeepsComplete) : (p.run World.perform w).2.KeepsComplete :=
  hp.run (fun _ _ hop hkept => ⟨trivial, hkept.perform hop⟩) h

theorem givesWhole_load (key : String) : (TokenStore.memory.load key).GivesWhole :=
  Program.allSteps_bind (Program.allSteps_perform (.reload key)) fun _ =>
    Program.allSteps_ofExcept _

theorem givesWhole_program {c : Config} {command : Command}
    (h : (Use.run c command).IsWhole) : (command.program c .memory).GivesWhole := by
  have hgrant (op : Op) (hop : op.isGranting = true) : op.GivesWhole :=
    .outer (Op.isOuter_of_isGranting hop)
  have hlock (op : Op) (hop : op.isLocking = true) : op.GivesWhole :=
    .outer (Op.isOuter_of_isLocking hop)
  cases command with
  | login key username password =>
    refine Program.allSteps_bind (Client.allSteps_login hgrant ?_) fun _ => trivial
    rintro _ ⟨⟩ tokens expiresAt
    refine Program.allSteps_perform (.keep _ tokens expiresAt ?_)
    rintro _ ⟨⟩
    exact h
  | status key =>
    refine Program.allSteps_bind (Program.allSteps_attempt (givesWhole_load key)) fun r => ?_
    cases r with
    | ok e => exact Program.allSteps_bind (Program.allSteps_perform (.outer rfl)) fun _ => trivial
    | error f =>
      dsimp only
      split <;> exact trivial
  | header key =>
    refine Program.allSteps_bind (Client.allSteps_accessToken hgrant ?_ ?_ hlock) fun _ => trivial
    · rintro _ ⟨⟩ tokens expiresAt
      exact Program.allSteps_perform (.keep _ tokens expiresAt nofun)
    · rintro _ ⟨⟩
      exact givesWhole_load key

theorem World.KeepsComplete.use {w : World} (h : w.KeepsComplete) {u : Use} (hu : u.IsWhole) :
    (u.after .memory w).KeepsComplete := by
  cases u with
  | run c command => exact h.run (givesWhole_program hu)
  | call step =>
    cases step with
    | save key tokens credentials expiresAt => exact AllComplete.save h hu
    | load key => exact h.run (givesWhole_load key)
    | clock now => exact h

theorem World.KeepsComplete.after {uses : List Use} (hwhole : ∀ u ∈ uses, u.IsWhole) {w : World}
    (h : w.KeepsComplete) : (StoreKind.memory.after uses w).KeepsComplete := by
  induction uses generalizing w with
  | nil => exact h
  | cons u uses ih =>
    have hfirst := h.use (hwhole u List.mem_cons_self)
    exact ih (fun v hv => hwhole v (List.mem_cons_of_mem u hv)) hfirst

/-! ### What the status tells -/

theorem purge_ne_ok {α : Type} (key : String) (doc : Document) (w : World) (x : α) :
    ((purge key doc).run World.perform w).1 ≠ .ok x := by
  intro h
  cases hdoc : Dict.get? doc expiryField with
  | none =>
    rw [purge, hdoc] at h
    cases h
  | some stored =>
    rw [run_purge_deleteIf hdoc] at h
    cases hdelete : w.deleteIf key expiryField stored with
    | ok deleted =>
      rw [hdelete] at h
      cases h
    | error e =>
      rw [hdelete] at h
      cases h

theorem complete_of_load_documents {w : World} {key : String} {e : StoredEntry}
    (h : StoreKind.documents.load key w = .ok e) :
    ∀ c ∈ e.credentials, c.isComplete = true := by
  have hload := StoreKind.load_eq (b := .documents) nofun key
  rw [StoreKind.load, hload, Program.run_bind, run_findStored_eq] at h
  cases hfind : w.find key with
  | error e' =>
    rw [hfind] at h
    cases h
  | ok found =>
    rw [hfind] at h
    cases found with
    | none => cases h
    | some doc =>
      change ((TokenDocument.loadFrom key doc).run World.perform w).1 = .ok e at h
      unfold TokenDocument.loadFrom at h
      split at h
      · cases h
      · next d _ =>
        change (Program.run World.perform
          (if d.expiresAt.before w.clock then purge key doc else .done (d.entry key)) w).1 =
            .ok e at h
        split at h
        · exact absurd h (purge_ne_ok key doc w e)
        · cases h
          intro c hc
          simp only [TokenDocument.entry, Option.mem_def] at hc
          split at hc
          · cases hc
            assumption
          · cases hc

namespace StoreKind

variable {a b : StoreKind} {m : Dict StoredEntry} {w w' : World} {key : String} {e : StoredEntry}

theorem image_after (h : b.Fresh w) {base : World} (hbase : base.memory = [])
    (hout : base.SameOutside w) (uses : List Use) :
    b.image (memory.after uses base).memory (b.after uses w) ∧
      (b.after uses w).clock = (memory.after uses base).clock := by
  have hstart : memory.SameEntries b base w := ⟨[], hbase, h.image, hout⟩
  obtain ⟨m, hm, himage, hafter⟩ := sameEntries_after uses hstart
  cases hm
  exact ⟨himage, hafter.clock⟩

theorem run_load_of_image (h : b.image m w) (key : String) : ∃ w',
    (b.store.load key).run World.perform w = ((Memory.load m w.clock key).1.map (b.shown key), w') ∧
      w'.clock = w.clock := by
  obtain ⟨w', hrun, -, hout⟩ := b.keeps.load h key
  exact ⟨w', hrun, hout.clock⟩

theorem exists_held_of_load (h : b.image m w) (hlive : b.load key w = .ok e) :
    ∃ e₀, (Memory.load m w.clock key).1 = .ok e₀ ∧ Dict.get? m key = some e₀ ∧
      e = b.shown key e₀ := by
  obtain ⟨w', hrun, -⟩ := run_load_of_image h key
  rw [load, hrun] at hlive
  cases he : Dict.get? m key with
  | none =>
    rw [Memory.load_absent he] at hlive
    cases hlive
  | some e₀ =>
    cases hexpired : e₀.isExpiredAt w.clock with
    | true =>
      rw [Memory.load_expired he hexpired] at hlive
      cases hlive
    | false =>
      rw [Memory.load_live he hexpired] at hlive ⊢
      cases hlive
      exact ⟨e₀, rfl, rfl, rfl⟩

theorem isSome_shown_credentials (e : StoredEntry)
    (h : a.shown = b.shown ∨ ∀ c ∈ e.credentials, c.isComplete = true) :
    (a.shown key e).credentials.isSome = (b.shown key e).credentials.isSome := by
  rcases h with h | hcomplete
  · rw [h]
  · have hsame (d : StoreKind) :
        (d.shown key e).credentials.isSome = e.credentials.isSome := by
      cases d with
      | documents =>
        change ((e.credentials.filter _).map _).isSome = _
        cases hc : e.credentials with
        | none => rfl
        | some c => simp [hcomplete c hc]
      | _ => rfl
    rw [hsame, hsame]

theorem complete_shown (h : ∀ c ∈ e.credentials, c.isComplete = true) :
    ∀ c ∈ (b.shown key e).credentials, c.isComplete = true := by
  cases b with
  | documents =>
    intro c hc
    obtain ⟨d, hd, rfl⟩ := Option.map_eq_some_iff.mp hc
    exact (Option.filter_eq_some_iff.mp hd).2
  | _ => exact h

theorem status_of_images (ha : a.image m w') (hb : b.image m w) (hclock : w'.clock = w.clock)
    {e₀ : StoredEntry} (he₀ : (Memory.load m w.clock key).1 = .ok e₀)
    (hshown : a.shown = b.shown ∨ ∀ c ∈ e₀.credentials, c.isComplete = true) :
    a.status key w' = b.status key w := by
  obtain ⟨v', hrun', hv'⟩ := run_load_of_image ha key
  obtain ⟨v, hrun, hv⟩ := run_load_of_image hb key
  rw [hclock, he₀] at hrun'
  rw [he₀] at hrun
  have hexpiry : (a.shown key e₀).expiresAt = (b.shown key e₀).expiresAt :=
    (a.shown_looksLike key e₀).expiresAt.trans (b.shown_looksLike key e₀).expiresAt.symm
  rw [status, status, Command.run_tellStatus hrun, Command.run_tellStatus hrun', hv, hv', hclock,
    hexpiry, isSome_shown_credentials e₀ hshown]

/-- The status names the registration under which a live pair will be refreshed exactly if no half
of one is shown. On plain documents it always does. On the other back ends it does after any uses
that give the store no half; all back ends then tell the same. -/
theorem status_truthful_iff (b : StoreKind) {w : World} {key : String} {e : StoredEntry}
    (hlive : b.load key w = .ok e) :
    ∃ notice, b.status key w = .ok notice ∧
      (notice.Truthful e ↔ ∀ c ∈ e.credentials, c.isComplete = true) ∧
      (b = .documents → notice.Truthful e) ∧
      ∀ (start : World) (uses : List Use), b.Fresh start → w = b.after uses start →
        ((∀ u ∈ uses, u.IsWhole) → notice.Truthful e) ∧
        ∀ (a : StoreKind) (start' : World), a.Fresh start' → start.SameOutside start' →
          (a.shown = b.shown ∨ ∀ u ∈ uses, u.IsWhole) →
          a.status key (a.after uses start') = .ok notice := by
  obtain ⟨left, htold⟩ := status_of_load hlive
  have htruthful := Notice.truthful_live_iff key left e
  refine ⟨_, htold, htruthful, ?_, ?_⟩
  · rintro rfl
    exact htruthful.mpr (complete_of_load_documents hlive)
  · rintro start uses hfresh rfl
    let base : World := { start with memory := [] }
    have hbase : base.SameOutside start := ⟨rfl, rfl, rfl, rfl, rfl, rfl, rfl⟩
    obtain ⟨himage, hclock⟩ := image_after hfresh rfl hbase uses
    obtain ⟨e₀, hload, hget, rfl⟩ := exists_held_of_load himage hlive
    have hcomplete (hwhole : ∀ u ∈ uses, u.IsWhole) : ∀ c ∈ e₀.credentials,
        c.isComplete = true := by
      have hempty : base.KeepsComplete := fun _ _ h => nomatch h
      exact hempty.after hwhole key e₀ hget
    refine ⟨fun hwhole => htruthful.mpr (complete_shown (hcomplete hwhole)), ?_⟩
    intro a start' hfresh' hout hshown
    obtain ⟨himage', hclock'⟩ := image_after hfresh' rfl (hbase.trans hout) uses
    rw [status_of_images himage' himage (hclock'.trans hclock.symm) hload
      (hshown.imp_right hcomplete)]
    exact htold

end StoreKind

/-! ### A login with and without a client secret -/

namespace FirstLogin

open StoreKind

def config (secret : Option Secret) : Config where
  client :=
    { clientId := "cid", clientSecret := secret, clientSecretFile := none,
      defaultCallerKey := "default", tokenEndpoint := defaultEndpoint, apiHost := defaultApiHost,
      timeout := defaultTimeout, refreshSkew := Config.defaultRefreshSkew,
      refreshMode := .independent, persistPolicy := .bestEffort }
  store := .default

def uses (secret : Option Secret) : List Use :=
  [.run (config secret) (.login "u1" "user" "pass")]

def entry (secret : String) : StoredEntry :=
  ⟨⟨"at_1", "rt_1", 30⟩, some ⟨"u1", "cid", secret⟩, .epoch⟩

theorem kept_half : (memory.after (uses none) Client.trialWorld).memory = [("u1", entry "")] ∧
    (memory.after (uses none) Client.trialWorld).clock = .epoch := by
  decide +kernel

theorem kept_whole :
    (memory.after (uses (some ⟨"cs"⟩)) Client.trialWorld).memory = [("u1", entry "cs")] ∧
      (memory.after (uses (some ⟨"cs"⟩)) Client.trialWorld).clock = .epoch := by
  decide +kernel

theorem fresh_documents : documents.Fresh Client.trialWorld := ⟨rfl, [], rfl, fun _ => rfl⟩

def sealed : StoreKind := .sealedDocuments TokenStore.trialKey

theorem fresh_sealed : sealed.Fresh Client.trialWorld := ⟨rfl, [], rfl, fun _ => rfl⟩

theorem load_after {b : StoreKind} (hfresh : b.Fresh Client.trialWorld) {secret : Option Secret}
    {kept : String}
    (h : (memory.after (uses secret) Client.trialWorld).memory = [("u1", entry kept)] ∧
      (memory.after (uses secret) Client.trialWorld).clock = .epoch) :
    b.load "u1" (b.after (uses secret) Client.trialWorld) = .ok (b.shown "u1" (entry kept)) := by
  obtain ⟨hmemory, hclock⟩ := h
  have hout : Client.trialWorld.SameOutside Client.trialWorld := .refl _
  obtain ⟨himage, hafter⟩ := image_after hfresh rfl hout (uses secret)
  rw [hmemory] at himage
  obtain ⟨w', hrun, -⟩ := run_load_of_image himage "u1"
  rw [hafter, hclock] at hrun
  rw [load, hrun]
  rfl

/-- After a login without a client secret the sealed store tells of a registration that no client
uses, and plain documents tell of none. -/
theorem half_registration_told :
    ∃ notice notice' e,
      sealed.load "u1" (sealed.after (uses none) Client.trialWorld) = .ok e ∧
      sealed.status "u1" (sealed.after (uses none) Client.trialWorld) = .ok notice ∧
      documents.status "u1" (documents.after (uses none) Client.trialWorld) = .ok notice' ∧
      notice.Says "stored" ∧ notice'.Says "default" ∧
      Credentials.NeverUsed e.credentials ∧ ¬ Credentials.AlwaysUsed e.credentials := by
  have hload := load_after fresh_sealed kept_half
  obtain ⟨left, htold⟩ := status_of_load hload
  obtain ⟨left', htold'⟩ := status_of_load (load_after fresh_documents kept_half)
  refine ⟨_, _, _, hload, htold, htold', (Notice.says_live_iff _ _ _ _).1.mpr rfl,
    (Notice.says_live_iff _ _ _ _).2.mpr rfl, ?_, ?_⟩
  · refine Credentials.neverUsed_iff.mpr ?_
    rintro _ ⟨⟩
    rfl
  · rw [Credentials.alwaysUsed_iff]
    rintro ⟨_, ⟨⟩, hcomplete⟩
    cases hcomplete

theorem whole_registration_told :
    ∃ notice,
      sealed.status "u1" (sealed.after (uses (some ⟨"cs"⟩)) Client.trialWorld) = .ok notice ∧
      documents.status "u1" (documents.after (uses (some ⟨"cs"⟩)) Client.trialWorld) =
        .ok notice ∧
      notice.Truthful (entry "cs") := by
  have hload := load_after fresh_sealed kept_whole
  have hwhole : ∀ u ∈ uses (some ⟨"cs"⟩), u.IsWhole := by
    intro u hu
    obtain rfl := List.mem_singleton.mp hu
    exact iff_of_false (by decide) (by decide)
  obtain ⟨notice, htold, -, -, hhistory⟩ := StoreKind.status_truthful_iff sealed hload
  obtain ⟨htruthful, hsame⟩ := hhistory Client.trialWorld (uses (some ⟨"cs"⟩)) fresh_sealed rfl
  exact ⟨notice, htold, hsame documents _ fresh_documents (.refl _) (.inr hwhole),
    htruthful hwhole⟩

end FirstLogin
end TokenKeeper
