import TokenKeeper.Proofs.Client.Programs
import TokenKeeper.Proofs.Client.Steps

/-!
# Registrations under tasks at once

A refresh saves its pair without a registration, and relies on the one that is stored. Between its
look at the entry and that save other tasks take their steps, and one of them may load the entry,
find it expired and delete it. So a save keeps the registration that is there when it looks for it,
and no other; it is the one from before if the entry has not vanished in the meantime.
-/
namespace TokenKeeper

variable {good : String → Option Credentials → Prop}

/-! ### Programs that take such steps only -/

namespace StoreKind

variable {b : StoreKind}

theorem allSteps_outer {op : Op} (h : op.isOuter = true) :
    (Program.perform op).AllSteps (Allows good b) (Expects good b) :=
  Program.allSteps_perform (.outer h)

theorem allSteps_purge {α : Type} (hb : b ≠ .memory) (key : String) {doc : Document}
    {expiry : String} (hdoc : Dict.get? doc expiryField = some (.str expiry)) :
    (purge (α := α) key doc).AllSteps (Allows good b) (Expects good b) := by
  rw [purge, hdoc]
  refine Program.allSteps_bind (Program.allSteps_perform (.purge hb key expiry)) fun answer => ?_
  exact Program.allSteps_bind (Program.allSteps_ofExcept _) fun _ => trivial

theorem allSteps_findStored (hb : b ≠ .memory) (key : String)
    {body : Document → Program StoredEntry}
    (hbody : ∀ doc expiry, Dict.get? doc expiryField = some (.str expiry) →
      (body doc).AllSteps (Allows good b) (Expects good b)) :
    ((findStored key).bind body).AllSteps (Allows good b) (Expects good b) := by
  refine ⟨.find hb key, fun answer => ?_⟩
  rintro ⟨found, rfl, hexpiry, -⟩
  cases found with
  | none => exact trivial
  | some doc =>
    obtain ⟨expiry, hdoc⟩ := hexpiry doc rfl
    exact hbody doc expiry hdoc

theorem allSteps_load (b : StoreKind) (key : String) :
    (b.store.load key).AllSteps (Allows good b) (Expects good b) := by
  cases b with
  | memory =>
    exact Program.allSteps_bind (Program.allSteps_perform (.reload key)) fun _ =>
      Program.allSteps_ofExcept _
  | documents =>
    have hb : documents ≠ .memory := fun h => nomatch h
    refine allSteps_findStored hb key fun doc expiry hdoc => ?_
    split
    · exact trivial
    · refine Program.allSteps_bind (allSteps_outer rfl) fun now => ?_
      split
      · exact allSteps_purge hb key hdoc
      · exact trivial
  | sealedDocuments ck =>
    have hb : sealedDocuments ck ≠ .memory := fun h => nomatch h
    refine allSteps_findStored hb key fun doc expiry hdoc => ?_
    split
    · exact trivial
    · refine Program.allSteps_bind (allSteps_outer rfl) fun now => ?_
      split
      · exact allSteps_purge hb key hdoc
      · exact Program.allSteps_bind (Program.allSteps_ofExcept _) fun _ => trivial

theorem allSteps_save (b : StoreKind) (key : String) (tokens : Tokens) (expiresAt : Instant) :
    (b.store.save key tokens none expiresAt).AllSteps (Allows good b) (Expects good b) := by
  cases b with
  | memory => exact Program.allSteps_perform (.keep key tokens expiresAt)
  | documents =>
    refine Program.allSteps_bind (Program.allSteps_perform (.merge key tokens expiresAt))
      fun _ => ?_
    exact Program.allSteps_ofExcept _
  | sealedDocuments ck =>
    have hb : sealedDocuments ck ≠ .memory := fun h => nomatch h
    refine ⟨.find hb key, fun answer => ?_⟩
    rintro ⟨found, rfl, -, hgood⟩
    cases found with
    | none =>
      refine ⟨.nonce, fun nonce _ => ⟨.reseal ck nonce key expiresAt (hgood ck rfl), ?_⟩⟩
      exact fun _ _ => Program.allSteps_ofExcept _
    | some doc =>
      refine ⟨.nonce, fun nonce _ => ⟨.reseal ck nonce key expiresAt (hgood ck rfl), ?_⟩⟩
      exact fun _ _ => Program.allSteps_ofExcept _

end StoreKind

namespace Client

variable (client : Client) {b : StoreKind}

theorem allSteps_accessToken_on (b : StoreKind) (key : String) :
    ((client.on b).accessToken key).AllSteps (StoreKind.Allows good b)
      (StoreKind.Expects good b) := by
  refine allSteps_accessToken (fun op hop => .outer (Op.isOuter_of_isGranting hop)) ?_ ?_
    fun op hop => .outer (Op.isOuter_of_isLocking hop)
  · rintro _ ⟨⟩ tokens expiresAt
    exact b.allSteps_save key tokens expiresAt
  · rintro _ ⟨⟩
    exact b.allSteps_load key

theorem comes_to_save {c c' : TaskPool Unit} {i : Nat}
    {key : String} {tokens : Tokens} {credentials : Credentials} {k : Granted → Program Unit}
    {owed : List Op} (hc : c.tasks[i]? =
      some (.running (((client.on b).refresh key tokens credentials).bind k) owed))
    {x : Exchange} {rest : List Exchange} (hx : c.world.endpoint = .scripted (x :: rest))
    {granted : Tokens} (hgranted : x.tokens .refresh = .ok granted) {first second : List Move}
    (hfirst : Others i first) (hsecond : Others i second)
    (hc' : (((c.move (.run i)).after first).move (.run i)).after second = c') {expiresAt : Instant}
    (he : granted.expiresAt? c'.world.clock = .ok expiresAt) :
    (c'.move (.run i)).world = c'.world ∧ ∃ k', (c'.move (.run i)).tasks[i]? =
      some (.running ((b.store.save key granted none expiresAt).attempt.bind k') owed) := by
  have hpost : c.tasks[i]? = some (.running (.step
      (.post (refreshForm tokens.refreshToken credentials)) fun x => .step
      (.count (.request .refresh (.ofResult (x.tokens .refresh)))) fun _ =>
        ((Program.ofExcept (x.tokens .refresh)).bind fun granted =>
          (client.on b).persist .refresh key granted none).bind k) owed) := hc
  have hanswer : World.perform (.post (refreshForm tokens.refreshToken credentials)) c.world =
      (x, (World.perform (.post (refreshForm tokens.refreshToken credentials)) c.world).2) := by
    simp only [World.perform, hx, Endpoint.respond]
    rfl
  obtain ⟨hcount, -⟩ := TaskPool.task_move_run hpost rfl hanswer
  rw [← TaskPool.task_after_others hfirst, hgranted] at hcount
  obtain ⟨hnow, -⟩ := TaskPool.task_move_run hcount rfl rfl
  rw [← TaskPool.task_after_others hsecond, hc'] at hnow
  obtain ⟨hsave, hworld⟩ := TaskPool.task_move_run hnow rfl rfl
  refine ⟨hworld, ?_⟩
  rw [hsave]
  change ∃ k', some (Task.running ((((Program.ofExcept (granted.expiresAt? c'.world.clock)).bind
    _).bind k)) owed) = _
  rw [he]
  change ∃ k', some (Task.running (((b.store.save key granted none expiresAt).attempt.bind
    _).bind k) owed) = _
  rw [Program.bind_assoc]
  exact ⟨_, rfl⟩

end Client

/-! ### Tasks at once -/

inductive KeyTask
  | accessToken (client : Client) (key : String)
  | load (key : String)

def KeyTask.program (b : StoreKind) : KeyTask → Program Unit
  | .accessToken client key => ((client.on b).accessToken key).bind fun _ => .done ()
  | .load key => (b.store.load key).bind fun _ => .done ()

namespace StoreKind

def pool (b : StoreKind) (keyTasks : List KeyTask) (w : World) : TaskPool Unit :=
  ⟨keyTasks.map fun e => .start (e.program b), w⟩

structure AllowedOver (good : String → Option Credentials → Prop) (b : StoreKind)
    (m : Dict StoredEntry) (c : TaskPool Unit) : Prop where
  allSteps : c.AllSteps (Allows good b) (Expects good b)
  image : b.image m c.world

theorem allowedOver_pool {b : StoreKind} {m : Dict StoredEntry} {w : World} (h : b.image m w)
    (keyTasks : List KeyTask) : AllowedOver good b m (b.pool keyTasks w) := by
  refine ⟨fun t ht => ?_, h⟩
  obtain ⟨e, -, rfl⟩ := List.mem_map.mp ht
  refine ⟨?_, fun op hop => nomatch hop⟩
  cases e with
  | accessToken client key =>
    exact Program.allSteps_bind (client.allSteps_accessToken_on b key) fun _ => trivial
  | load key => exact Program.allSteps_bind (b.allSteps_load key) fun _ => trivial

namespace AllowedOver

variable {b : StoreKind} {m : Dict StoredEntry} {c : TaskPool Unit}

theorem move (h : AllowedOver good b m c) (hgood : ∀ key, good key (registered m key)) (mv : Move) :
    ∃ m', AllowedOver good b m' (c.move mv) ∧ Follows good m m' := by
  obtain ⟨hsteps, hworld⟩ := h.allSteps.move (fun op hop => .outer hop)
    (fun op hop => hop.expects h.image hgood) mv
  rcases hworld with ⟨op, hop, hw⟩ | ⟨now, hw⟩
  · obtain ⟨m', himage, hfollows⟩ := hop.follows h.image
    exact ⟨m', ⟨hsteps, hw ▸ himage⟩, hfollows⟩
  · have himage : b.image m { c.world with clock := now } :=
      b.keeps.frame h.image ⟨rfl, rfl, rfl, rfl, rfl⟩
    exact ⟨m, ⟨hsteps, hw ▸ himage⟩, .refl good m⟩

theorem after (h : AllowedOver (fun _ _ => True) b m c) (ms : List Move) :
    ∃ m', AllowedOver (fun _ _ => True) b m' (c.after ms) := by
  induction ms generalizing m c with
  | nil => exact ⟨m, h⟩
  | cons mv ms ih =>
    obtain ⟨m', hmove, -⟩ := h.move (fun _ => trivial) mv
    exact ih hmove

theorem registered_after {key : String} {r : Option Credentials}
    (h : AllowedOver (fun k credentials => k = key → credentials = r) b m c)
    (hr : registered m key = r) {ms : List Move}
    (hstored : ∀ seen, seen <+: ms → (b.held? (c.after seen).world key).isSome) :
    ∃ m', b.image m' (c.after ms).world ∧ registered m' key = r := by
  induction ms generalizing m c with
  | nil => exact ⟨m, h.image, hr⟩
  | cons mv ms ih =>
    obtain ⟨m', hmove, hfollows⟩ := h.move (fun k hk => hk ▸ hr) mv
    have hthere : (b.held? (c.move mv).world key).isSome :=
      hstored [mv] (List.prefix_cons_inj mv |>.mpr List.nil_prefix)
    rw [held?_of_image hmove.image, Option.isSome_map] at hthere
    obtain ⟨e, he⟩ := Option.isSome_iff_exists.mp hthere
    have hr' : registered m' key = r := by
      rw [registered, he]
      rcases hfollows key e he with hbefore | hgood
      · exact hbefore.trans hr
      · exact hgood rfl
    refine ih hmove hr' fun seen hseen => ?_
    exact hstored (mv :: seen) ((List.prefix_cons_inj mv).mpr hseen)

end AllowedOver

/-! ### What a save finds and what it leaves -/

/-- The moves of a save, from the look that it takes at what is stored to its write. -/
def Saves (i : Nat) : StoreKind → List Move → Prop
  | .sealedDocuments _, ms => ∃ first second, Others i first ∧ Others i second ∧
    ms = .run i :: (first ++ .run i :: (second ++ [.run i]))
  | _, ms => ms = [.run i]

theorem memory_saved {c : TaskPool Unit} {i : Nat} {key : String} {tokens : Tokens}
    {expiresAt : Instant} {k : Except Failure Unit → Program Unit} {owed : List Op}
    (hc : c.tasks[i]? = some (.running
      ((memory.store.save key tokens none expiresAt).attempt.bind k) owed)) :
    (c.move (.run i)).world.memory =
      Dict.insert c.world.memory key ⟨tokens, registered c.world.memory key, expiresAt⟩ := by
  have hstand : c.tasks[i]? = some (.running (.step (.keep key tokens none expiresAt)
    fun _ => k (.ok ())) owed) := hc
  obtain ⟨-, hw⟩ := TaskPool.task_move_run hstand rfl rfl
  rw [hw]
  rfl

theorem AllowedOver.image_resealed {ck : CipherKey} {m : Dict StoredEntry} {c : TaskPool Unit}
    (h : AllowedOver (fun _ _ => True) (sealedDocuments ck) m c) {i : Nat} {key : String}
    {tokens : Tokens} {expiresAt : Instant} {k : Except Failure Unit → Program Unit}
    {owed : List Op} (hc : c.tasks[i]? = some (.running
      (((sealedDocuments ck).store.save key tokens none expiresAt).attempt.bind k) owed))
    {first second : List Move} (hfirst : Others i first) (hsecond : Others i second) :
    ∃ m', (sealedDocuments ck).image (Dict.insert m' key ⟨tokens, registered m key, expiresAt⟩)
      (((((c.move (.run i)).after first).move (.run i)).after second).move (.run i)).world := by
  have hb : sealedDocuments ck ≠ .memory := fun h => nomatch h
  obtain ⟨found, hfind, -, hfound⟩ := find_of_image h.image hb key
  obtain ⟨hlook, -⟩ := TaskPool.task_move_run hc rfl (congrArg (·, c.world) hfind)
  -- from here on the save knows the credentials that it will seal
  have hnonce : (c.move (.run i)).tasks[i]? = some (.running (.step .nonce fun nonce =>
    .step (.upsert key (SealedDocument.fields ck nonce key ⟨tokens, registered m key⟩ expiresAt))
      fun answer => (Program.ofExcept answer).attempt.bind k) owed) := by
    rw [hlook, ← hfound ck rfl]
    cases found <;> rfl
  rw [← TaskPool.task_after_others hfirst] at hnonce
  obtain ⟨hwrite, -⟩ := TaskPool.task_move_run hnonce rfl rfl
  rw [← TaskPool.task_after_others hsecond] at hwrite
  obtain ⟨m', hm'⟩ := h.after (.run i :: (first ++ .run i :: second))
  rw [TaskPool.after_two] at hm'
  obtain ⟨docs, hdocs, hseals⟩ := hm'.image
  obtain ⟨w', hupsert, -, hsealed⟩ := SealedDocument.perform_upsert hdocs hseals _ key
    ⟨tokens, registered m key⟩ expiresAt
  obtain ⟨-, hw⟩ := TaskPool.task_move_run hwrite rfl hupsert
  refine ⟨m', ?_⟩
  rw [hw]
  exact hsealed

theorem AllowedOver.image_saved {b : StoreKind} {m : Dict StoredEntry} {c : TaskPool Unit}
    (h : AllowedOver (fun _ _ => True) b m c) {i : Nat} {key : String} {tokens : Tokens}
    {expiresAt : Instant} {k : Except Failure Unit → Program Unit} {owed : List Op}
    (hc : c.tasks[i]? = some (.running
      ((b.store.save key tokens none expiresAt).attempt.bind k) owed))
    {ms : List Move} (hms : b.Saves i ms) :
    ∃ m', b.image (Dict.insert m' key ⟨tokens, registered m key, expiresAt⟩)
      (c.after ms).world := by
  cases b with
  | memory =>
    cases hms
    have hm : c.world.memory = m := h.image
    refine ⟨m, ?_⟩
    change (c.move (.run i)).world.memory = _
    rw [memory_saved hc, hm]
  | documents =>
    cases hms
    have hstand : c.tasks[i]? = some (.running (.step (.upsert key
      (TokenDocument.fields key tokens none expiresAt))
      fun answer => (Program.ofExcept answer).attempt.bind k) owed) := hc
    obtain ⟨w', hupsert, -, hholds⟩ :=
      TokenDocument.perform_upsert h.image key tokens none expiresAt
    obtain ⟨-, hw⟩ := TaskPool.task_move_run hstand rfl hupsert
    refine ⟨m, ?_⟩
    change (c.move (.run i)).world.Holds _
    rw [hw]
    exact hholds
  | sealedDocuments ck =>
    obtain ⟨first, second, hfirst, hsecond, rfl⟩ := hms
    rw [TaskPool.after_three]
    exact h.image_resealed hc hfirst hsecond

/-- Right after a save of a refresh the entry of its key carries the pair that was granted, and the
credentials that the save found at its look. If the entry had not vanished until then, these are the
ones that it carried at any time before, such as when the task loaded it. -/
theorem entry_after_save (b : StoreKind) {m : Dict StoredEntry} {w : World} (hw : b.image m w)
    (keyTasks : List KeyTask) (before : List Move) {i : Nat} {key : String} {tokens : Tokens}
    {expiresAt : Instant} {k : Except Failure Unit → Program Unit} {owed : List Op}
    (hsave : ((b.pool keyTasks w).after before).tasks[i]? = some (.running
      ((b.store.save key tokens none expiresAt).attempt.bind k) owed))
    {ms : List Move} (hms : b.Saves i ms) :
    ∃ e, b.held? ((b.pool keyTasks w).after (before ++ ms)).world key = some e ∧
      e.tokens.accessToken = tokens.accessToken ∧ e.tokens.refreshToken = tokens.refreshToken ∧
      e.expiresAt = expiresAt ∧
      e.credentials = b.credentials? ((b.pool keyTasks w).after before).world key ∧
      ((∀ seen, seen <+: before → (b.held? ((b.pool keyTasks w).after seen).world key).isSome) →
        ∀ seen, seen <+: before →
          b.credentials? ((b.pool keyTasks w).after seen).world key = e.credentials) := by
  obtain ⟨m₁, hlook⟩ := (allowedOver_pool hw keyTasks).after before
  obtain ⟨m₂, himage⟩ := hlook.image_saved hsave hms
  have hentry := held?_of_image himage key
  have hshown := b.shown_looksLike key ⟨tokens, registered m₁ key, expiresAt⟩
  have hfound := credentials?_of_image hlook.image key tokens expiresAt
  rw [Dict.get?_insert, if_pos rfl, Option.map_some] at hentry
  rw [TaskPool.after_append]
  refine ⟨_, hentry, hshown.accessToken, hshown.refreshToken, hshown.expiresAt, hfound.symm, ?_⟩
  intro hstored seen hseen
  have hstay : ∀ ms, ms <+: before →
      b.credentials? ((b.pool keyTasks w).after ms).world key = b.credentials? w key := by
    intro ms hms
    obtain ⟨m', himage', hr⟩ := (allowedOver_pool hw keyTasks).registered_after rfl
      fun seen hseen => hstored seen (hseen.trans hms)
    rw [credentials?_of_image himage' key tokens expiresAt, hr,
      credentials?_of_image hw key tokens expiresAt]
  rw [hstay seen hseen, ← hfound, hstay before (List.prefix_refl before)]

end StoreKind

/-! ### A registration that is lost -/

namespace LastMoment

def entry : StoredEntry := ⟨⟨"at_1", "rt_1", 300⟩, some ⟨"u1", "cid", "cs"⟩, .epoch⟩

def renewed : Tokens := ⟨"at_2", "rt_2", 900⟩

def answer : Exchange := .answer 200 (some (Utf8.encode renewed.json.compact))

def world : World :=
  { World.isolated .epoch .empty with memory := [("u1", entry)], endpoint := .scripted [answer] }

def client : Client := .new ⟨"default", "id", "secret"⟩

def keyTasks : List KeyTask := [.accessToken client "u1", .load "u1"]

def pool : TaskPool Unit := StoreKind.memory.pool keyTasks world

def later : Instant := (Instant.epoch.addSeconds? 1).getD .epoch

theorem tokens_answer : answer.tokens .refresh = .ok renewed :=
  Exchange.tokens_granted .refresh renewed

theorem at_refresh : ∃ k, (pool.after [.run 0, .run 0]).tasks[0]? = some (.running
    (((client.on .memory).refresh "u1" entry.tokens ⟨"u1", "cid", "cs"⟩).bind k) []) := by
  have hstand : (pool.after [.run 0, .run 0]).tasks[0]? = some (.running
      (((((client.on .memory).refresh "u1" entry.tokens ⟨"u1", "cid", "cs"⟩).bind fun granted =>
        .done granted.tokens).bind fun tokens => Client.usable "u1" tokens.accessToken).bind
        fun _ => .done ()) []) := rfl
  rw [Program.bind_assoc, Program.bind_assoc] at hstand
  exact ⟨_, hstand⟩

def before (second : List Move) : List Move := [.run 0, .run 0, .run 0, .run 0] ++ second

theorem at_save {second : List Move} (hsecond : Others 0 second) {now expiresAt : Instant}
    (hclock : (pool.after (before second)).world.clock = now)
    (he : renewed.expiresAt? now = .ok expiresAt) :
    (pool.after (before second ++ [.run 0])).world = (pool.after (before second)).world ∧
      ∃ k, (pool.after (before second ++ [.run 0])).tasks[0]? = some (.running
        ((StoreKind.memory.store.save "u1" renewed none expiresAt).attempt.bind k) []) := by
  obtain ⟨k, hstand⟩ := at_refresh
  have hanswer : (pool.after [.run 0, .run 0]).world.endpoint = .scripted [answer] := rfl
  have hnobody : Others 0 [] := fun m hm => nomatch hm
  have hmoves : (((pool.after [.run 0, .run 0]).move (.run 0)).move (.run 0)).after second =
      pool.after (before second) := by
    rw [before, TaskPool.after_append]
    simp only [TaskPool.after, List.foldl]
  rw [TaskPool.after_concat]
  exact client.comes_to_save hstand hanswer tokens_answer hnobody hsecond hmoves (hclock ▸ he)

theorem registration_kept :
    ∃ e, StoreKind.memory.held? (pool.after (before [] ++ [.run 0] ++ [.run 0])).world "u1" =
        some e ∧ e.tokens.accessToken = "at_2" ∧ e.credentials = some ⟨"u1", "cid", "cs"⟩ := by
  have hnobody : Others 0 [] := fun m hm => nomatch hm
  have hclock : (pool.after (before [])).world.clock = .epoch := rfl
  have he : renewed.expiresAt? .epoch =
      .ok ⟨870, 0, by decide, by decide, by decide, by decide⟩ := rfl
  have hmemory : (pool.after (before [])).world.memory = [("u1", entry)] := rfl
  obtain ⟨hworld, k, hsave⟩ := at_save hnobody hclock he
  have himage : StoreKind.memory.image [("u1", entry)] world := rfl
  have hwrite : StoreKind.memory.Saves 0 [.run 0] := rfl
  unfold pool at hsave hworld hmemory ⊢
  obtain ⟨e, hentry, haccess, -, -, hfound, -⟩ :=
    StoreKind.entry_after_save .memory himage _ _ hsave hwrite
  refine ⟨e, hentry, haccess, ?_⟩
  rw [hfound, hworld, StoreKind.credentials?, StoreKind.held?_memory, hmemory]
  rfl

/-- When the second task finds the entry expired before the first one saves, the registration that
the first one has loaded is lost. -/
theorem registration_lost :
    (Memory.load world.memory world.clock "u1").1 = .ok entry ∧
    entry.credentials = some ⟨"u1", "cid", "cs"⟩ ∧
    Credentials.isComplete ⟨"u1", "cid", "cs"⟩ = true ∧ world.clock.before later = true ∧
    (∃ k, (pool.after (before [.clock later, .run 1] ++ [.run 0])).tasks[0]? =
      some (.running ((StoreKind.memory.store.save "u1" renewed none
        ⟨871, 0, by decide, by decide, by decide, by decide⟩).attempt.bind k) [])) ∧
    StoreKind.memory.held? (pool.after (before [.clock later, .run 1] ++ [.run 0] ++
      [.run 0])).world "u1" =
        some ⟨renewed, none, ⟨871, 0, by decide, by decide, by decide, by decide⟩⟩ := by
  have hothers : Others 0 [.clock later, .run 1] := by
    intro m hm
    rcases List.mem_cons.mp hm with rfl | hm
    · exact ⟨nofun, nofun⟩
    · cases List.mem_singleton.mp hm
      exact ⟨nofun, nofun⟩
  have hclock : (pool.after (before [.clock later, .run 1])).world.clock = later := rfl
  have he : renewed.expiresAt? later =
      .ok ⟨871, 0, by decide, by decide, by decide, by decide⟩ := rfl
  have hmemory : (pool.after (before [.clock later, .run 1])).world.memory = [] := rfl
  obtain ⟨hworld, k, hsave⟩ := at_save hothers hclock he
  have hentries := StoreKind.memory_saved hsave
  rw [hworld, hmemory] at hentries
  refine ⟨rfl, rfl, rfl, rfl, ⟨k, hsave⟩, ?_⟩
  rw [TaskPool.after_concat, StoreKind.held?_memory, hentries]
  rfl

end LastMoment
end TokenKeeper
