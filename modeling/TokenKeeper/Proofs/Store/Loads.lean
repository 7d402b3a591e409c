import TokenKeeper.Proofs.Store.Tasks

/-!
# Loads among saves

However saves and loads on one collection take turns, a load never mixes saves: its pair and expiry
are those of the save that had written last when it found its document, and its registration is one
that some save passed. A purge goes by the text of the expiry that was read, and texts tell expiries
apart; so what a load removes had expired by its own look at the clock.
-/
namespace TokenKeeper

open StoreTask

/-! ### Where entries come from -/

def lastWriter (key : String) (past : List Event) : Option Nat :=
  past.foldl (fun last e => if e.op.writesTo key then some e.task else last) none

theorem lastWriter_concat (key : String) (past : List Event) (e : Event) :
    lastWriter key (past ++ [e]) =
      if e.op.writesTo key then some e.task else lastWriter key past := by
  rw [lastWriter, List.foldl_append]
  rfl

def Passed (ts : List StoreTask) (past : List Event) (key : String) (c : Credentials) : Prop :=
  ∃ j tokens expiresAt, ts[j]? = some (.save key tokens (some c) expiresAt) ∧
    ∃ e ∈ past, e.task = j ∧ e.op.writesTo key = true

/-- Pair and expiry of an entry are those of the save that wrote last, and its credentials were
passed by some save. -/
structure Source (ts : List StoreTask) (past : List Event) (key : String) (e : StoredEntry) :
    Prop where
  written : ∃ j credentials, lastWriter key past = some j ∧
    ts[j]? = some (.save key e.tokens credentials e.expiresAt)
  passed : ∀ c, e.credentials = some c → Passed ts past key c

section

variable {ts : List StoreTask} {past : List Event} {key : String}

theorem Passed.mono {c : Credentials} (h : Passed ts past key c) (e : Event) :
    Passed ts (past ++ [e]) key c := by
  obtain ⟨j, tokens, expiresAt, hj, ev, hev, hwrote⟩ := h
  exact ⟨j, tokens, expiresAt, hj, ev, List.mem_append_left _ hev, hwrote⟩

theorem Source.mono {entry : StoredEntry} (h : Source ts past key entry) {e : Event}
    (he : e.op.writesTo key = false) : Source ts (past ++ [e]) key entry := by
  obtain ⟨⟨j, credentials, hlast, hj⟩, hpassed⟩ := h
  refine ⟨⟨j, credentials, ?_, hj⟩, fun c hc => (hpassed c hc).mono e⟩
  rw [lastWriter_concat, he]
  exact hlast

end

/-! ### What is known of a task -/

/-- A load found a document, with no step before that, and the entry in it has a source. -/
def Found (b : StoreKind) (ts : List StoreTask) (past : List Event) (i : Nat) (key : String)
    (doc : Document) : Prop :=
  ∃ before later e, past = before ++ ⟨i, .find key, .ok (some doc)⟩ :: later ∧
    (∀ ev ∈ before, ev.task ≠ i) ∧ b.Documented key e doc ∧ Source ts before key e

def StateSound (b : StoreKind) (ts : List StoreTask) (past : List Event) (i : Nat) :
    StoreTask → TaskState → Prop
  | .load _, .fresh => ∀ e ∈ past, e.task ≠ i
  | .save key .., .looked found => ∀ c, found = some c → Passed ts past key c
  | .load key, .found doc => Found b ts past i key doc ∧ ∀ t, ⟨i, .now, t⟩ ∉ past
  | .load key, .judged doc now => Found b ts past i key doc ∧ ∀ t, ⟨i, .now, t⟩ ∈ past ↔ t = now
  | _, _ => True

section

variable {b : StoreKind} {ts : List StoreTask} {past : List Event} {i : Nat}

theorem Found.mono {key : String} {doc : Document} (h : Found b ts past i key doc) (e : Event) :
    Found b ts (past ++ [e]) i key doc := by
  obtain ⟨before, later, entry, rfl, hrest⟩ := h
  exact ⟨before, later ++ [e], entry, List.append_assoc _ _ _, hrest⟩

theorem mem_concat_of_other {e ev : Event} (h : e ≠ ev) :
    ev ∈ past ++ [e] ↔ ev ∈ past := by
  rw [List.mem_append, List.mem_singleton]
  exact or_iff_left h.symm

theorem StateSound.mono {t : StoreTask} {s : TaskState} (h : StateSound b ts past i t s) {e : Event}
    (he : e.task ≠ i) : StateSound b ts (past ++ [e]) i t s := by
  have hnow : ∀ t, (⟨i, .now, t⟩ : Event) ∈ past ++ [e] ↔ ⟨i, .now, t⟩ ∈ past := by
    intro t
    refine mem_concat_of_other ?_
    rintro rfl
    exact he rfl
  cases t with
  | save key tokens credentials expiresAt =>
    cases s with
    | looked found => exact fun c hc => (h c hc).mono e
    | _ => exact trivial
  | load key =>
    cases s with
    | fresh =>
      intro ev hev
      rcases List.mem_append.mp hev with hev | hev
      · exact h ev hev
      · exact List.mem_singleton.mp hev ▸ he
    | found doc => exact ⟨h.1.mono e, fun t ht => h.2 t ((hnow t).mp ht)⟩
    | judged doc now => exact ⟨h.1.mono e, fun t => (hnow t).trans (h.2 t)⟩
    | _ => exact trivial

end

/-! ### What all steps uphold -/

structure Sound (b : StoreKind) (ts : List StoreTask) (s : PoolState TaskState) : Prop where
  entries : ∃ m, b.image m s.world ∧ ∀ key e, Dict.get? m key = some e → Source ts s.past key e
  stateSound : ∀ i, StateSound b ts s.past i (taskAt ts i) (s.phase i)

namespace StoreKind

variable {b : StoreKind} {m : Dict StoredEntry} {key : String} {credentials : Option Credentials}

theorem credentialsAfter_cases {c : Credentials}
    (h : b.credentialsAfter m key credentials = some c) :
    credentials = some c ∨ registered m key = some c := by
  have hgiven : (Credentials.given credentials).orElse (fun _ => registered m key) = some c →
      credentials = some c ∨ registered m key = some c := by
    intro h
    cases hc : Credentials.given credentials with
    | none =>
      rw [hc] at h
      exact Or.inr h
    | some d =>
      rw [hc] at h
      cases h
      exact Or.inl (Option.filter_eq_some_iff.mp hc).1
  cases b with
  | memory => exact hgiven h
  | documents => exact hgiven h
  | sealedDocuments ck => exact Or.inl h

end StoreKind

namespace Sound

variable {b : StoreKind} {ts : List StoreTask} {s : PoolState TaskState} {i : Nat} {op : Op}
  {a : op.Answer} {m : Dict StoredEntry}

theorem of_subset {m' : Dict StoredEntry}
    (hm : ∀ key e, Dict.get? m key = some e → Source ts s.past key e)
    (hsub : ∀ key e, Dict.get? m' key = some e → Dict.get? m key = some e)
    (hop : ∀ key, op.writesTo key = false) :
    ∀ key e, Dict.get? m' key = some e → Source ts (s.past ++ [⟨i, op, a⟩]) key e :=
  fun key e he => (hm key e (hsub key e he)).mono (hop key)

theorem of_erase {k key : String} {e : StoredEntry} (h : Dict.get? (Dict.erase m k) key = some e) :
    Dict.get? m key = some e := by
  rw [Dict.get?_erase] at h
  split at h
  · cases h
  · exact h

theorem of_load {now : Instant} {k key : String} {e : StoredEntry}
    (h : Dict.get? (Memory.load m now k).2 key = some e) : Dict.get? m key = some e := by
  unfold Memory.load at h
  split at h
  · exact h
  · split at h
    · exact of_erase h
    · exact h

theorem of_write {key : String} {tokens : Tokens} {credentials written : Option Credentials}
    {expiresAt : Instant} (hm : ∀ key e, Dict.get? m key = some e → Source ts s.past key e)
    (hi : taskAt ts i = .save key tokens credentials expiresAt)
    (hop : b.Writes key tokens written expiresAt op)
    (hcredentials : ∀ c, written = some c → Passed ts (s.past ++ [⟨i, op, a⟩]) key c) :
    ∀ k e, Dict.get? (Dict.insert m key
        ⟨tokens, b.credentialsAfter m key written, expiresAt⟩) k = some e →
      Source ts (s.past ++ [⟨i, op, a⟩]) k e := by
  intro k e he
  rw [Dict.get?_insert] at he
  split at he
  · next hk =>
    cases he
    cases hk
    refine ⟨⟨i, credentials, ?_, getElem?_of_save hi⟩, fun c hc => ?_⟩
    · rw [lastWriter_concat, hop.writesTo, beq_self_eq_true, if_pos rfl]
    · rcases StoreKind.credentialsAfter_cases hc with hc | hc
      · exact hcredentials c hc
      · obtain ⟨e, he, hregistered⟩ := Option.bind_eq_some_iff.mp hc
        exact ((hm key e he).passed c hregistered).mono _
  · next hk =>
    refine (hm k e he).mono ?_
    rw [hop.writesTo]
    exact beq_eq_false_iff_ne.mpr hk

theorem entries_step (h : Sound b ts s) (hop : (taskAt ts i).Allows b (s.phase i) op) :
    ∃ m', b.image m' (World.perform op s.world).2 ∧ ∀ key e, Dict.get? m' key = some e →
      Source ts (s.past ++ [⟨i, op, a⟩]) key e := by
  obtain ⟨m, himage, hm⟩ := h.entries
  have hstate := h.stateSound i
  cases ht : taskAt ts i with
  | save key tokens credentials expiresAt =>
    rw [ht] at hop hstate
    generalize s.phase i = phase at hop hstate
    cases hop with
    | nonce =>
      exact ⟨m, b.keeps.frame himage ⟨rfl, rfl, rfl, rfl, rfl⟩,
        of_subset hm (fun _ _ he => he) fun _ => rfl⟩
    | look hb hc => exact ⟨m, himage, of_subset hm (fun _ _ he => he) fun _ => rfl⟩
    | write hb hwrites =>
      refine ⟨_, hwrites.image himage, of_write hm ht hwrites ?_⟩
      rintro c rfl
      refine ⟨i, tokens, expiresAt, getElem?_of_save ht, _, List.mem_concat_self, rfl, ?_⟩
      rw [hwrites.writesTo, beq_self_eq_true]
    | reseal hb hc hwrites =>
      exact ⟨_, hwrites.image himage, of_write hm ht hwrites fun c hc => (hstate c hc).mono _⟩
  | load key =>
    rw [ht] at hop hstate
    generalize s.phase i = phase at hop hstate
    cases hop with
    | fetch hb =>
      cases hb
      cases himage
      exact ⟨_, rfl, of_subset hm (fun _ _ => of_load) fun _ => rfl⟩
    | find hb => exact ⟨m, himage, of_subset hm (fun _ _ he => he) fun _ => rfl⟩
    | clock => exact ⟨m, himage, of_subset hm (fun _ _ he => he) fun _ => rfl⟩
    | purge hdoc he =>
      obtain ⟨removed, -, -, himage'⟩ := StoreKind.perform_purge himage hdoc.not_memory key _
      refine ⟨_, himage', of_subset hm (fun k e he => ?_) fun _ => rfl⟩
      split at he
      · exact of_erase he
      · exact he

theorem stateSound_step (h : Sound b ts s) (hop : (taskAt ts i).Allows b (s.phase i) op) :
    StateSound b ts (s.past ++ [⟨i, op, (World.perform op s.world).1⟩]) i (taskAt ts i)
      ((taskAt ts i).next b (s.phase i) op (World.perform op s.world).1) := by
  obtain ⟨m, himage, hm⟩ := h.entries
  have hstate := h.stateSound i
  generalize taskAt ts i = t at hop hstate
  generalize s.phase i = phase at hop hstate
  cases hop with
  | @nonce key tokens credentials expiresAt =>
    cases phase with
    | looked found => exact fun c hc => (hstate c hc).mono _
    | _ => exact trivial
  | @look ck key tokens credentials expiresAt hb hc =>
    cases hb
    rcases StoreKind.find_documented himage nofun key with ⟨-, hfind⟩ | ⟨e, doc, he, hfind, hdoc⟩
    · change StateSound _ _ (_ ++ [⟨i, .find key, s.world.find key⟩]) _ _
        ((StoreTask.save ..).afterFind _ (s.world.find key))
      rw [hfind]
      exact fun c hc => nomatch hc
    · change StateSound _ _ (_ ++ [⟨i, .find key, s.world.find key⟩]) _ _
        ((StoreTask.save ..).afterFind _ (s.world.find key))
      rw [hfind]
      exact fun c hc => ((hm key e he).passed c (hdoc.sealedIn?.symm.trans hc)).mono _
  | write hb hwrites =>
    rw [next_of_writes hwrites]
    exact trivial
  | reseal hb hc hwrites =>
    rw [next_of_writes hwrites]
    exact trivial
  | fetch hb => exact trivial
  | @find key hb =>
    rcases StoreKind.find_documented himage hb key with ⟨-, hfind⟩ | ⟨e, doc, he, hfind, hdoc⟩
    · change StateSound _ _ (_ ++ [⟨i, .find key, s.world.find key⟩]) _ _
        ((StoreTask.load key).afterFind _ (s.world.find key))
      rw [hfind]
      exact trivial
    · change StateSound _ _ (_ ++ [⟨i, .find key, s.world.find key⟩]) _ _
        ((StoreTask.load key).afterFind _ (s.world.find key))
      rw [hfind]
      refine ⟨⟨s.past, [], e, rfl, hstate, hdoc, hm key e he⟩, fun t ht => ?_⟩
      rw [mem_concat_of_other (by rintro ⟨⟩)] at ht
      exact hstate _ ht rfl
  | @clock key doc =>
    refine ⟨hstate.1.mono _, fun t => ?_⟩
    rw [List.mem_append, List.mem_singleton]
    constructor
    · rintro (ht | ht)
      · exact absurd ht (hstate.2 t)
      · cases ht
        rfl
    · rintro rfl
      exact Or.inr rfl
  | purge hdoc he => exact trivial

end Sound

theorem stored_after_insert {m : Dict StoredEntry} {key : String} {e : StoredEntry}
    (he : Dict.get? m key = some e) (k : String) (v : StoredEntry) :
    ∃ e', Dict.get? (Dict.insert m k v) key = some e' := by
  rw [Dict.get?_insert]
  split
  · exact ⟨v, rfl⟩
  · exact ⟨e, he⟩

theorem Timestamp.text_injective {t u : Instant} (h : text t = text u) : t = u :=
  Option.some.inj ((read?_text t).symm.trans ((congrArg read? h).trans (read?_text u)))

theorem Allows.purge_of_vanished {b : StoreKind} {t : StoreTask} {taskState : TaskState} {op : Op}
    (h : t.Allows b taskState op) (hb : b ≠ .memory) {m : Dict StoredEntry} {w : World}
    (himage : b.image m w) {key : String} {e : StoredEntry} (he : Dict.get? m key = some e)
    (hafter : (World.perform op w).2.find key = .ok none) :
    ∃ doc now, t = .load key ∧ taskState = .judged doc now ∧ e.isExpiredAt now = true := by
  cases h with
  | nonce =>
    exact absurd hafter
      (StoreKind.find_ne_none (b.keeps.frame himage ⟨rfl, rfl, rfl, rfl, rfl⟩) hb he)
  | look hb' hc => exact absurd hafter (StoreKind.find_ne_none himage hb he)
  | write hb' hwrites =>
    obtain ⟨e', he'⟩ := stored_after_insert he _ _
    exact absurd hafter (StoreKind.find_ne_none (hwrites.image himage) hb he')
  | reseal hb' hc hwrites =>
    obtain ⟨e', he'⟩ := stored_after_insert he _ _
    exact absurd hafter (StoreKind.find_ne_none (hwrites.image himage) hb he')
  | fetch hb' => exact absurd hb' hb
  | find hb' => exact absurd hafter (StoreKind.find_ne_none himage hb he)
  | clock => exact absurd hafter (StoreKind.find_ne_none himage hb he)
  | @purge k doc now e' hdoc hexpired =>
    obtain ⟨removed, -, hremoved, himage'⟩ :=
      StoreKind.perform_purge himage hb k (Timestamp.text e'.expiresAt)
    by_cases hgone : removed = true ∧ k = key
    · obtain ⟨rfl, rfl⟩ := hgone
      rw [he, Option.map_some] at hremoved
      have htext := Option.some.inj (eq_of_beq hremoved.symm)
      refine ⟨doc, now, rfl, rfl, ?_⟩
      rw [StoredEntry.isExpiredAt, Timestamp.text_injective htext]
      exact hexpired
    · refine absurd hafter (StoreKind.find_ne_none himage' hb (e := e) ?_)
      split
      · next hremoved =>
        rw [Dict.get?_erase, if_neg fun hk => hgone ⟨hremoved, hk⟩]
        exact he
      · exact he

theorem upholds_sound (b : StoreKind) (ts : List StoreTask) :
    Upholds (fun i => (taskAt ts i).rules b) (Sound b ts) where
  step := by
    intro s i op owed h _ _ hallows
    obtain ⟨m, himage, -⟩ := h.entries
    refine ⟨Allows.answers hallows himage, h.entries_step hallows, fun j => ?_⟩
    by_cases hj : j = i
    · subst hj
      simp only [PoolState.step, Function.update_self]
      exact h.stateSound_step hallows
    · simp only [PoolState.step, Function.update_of_ne hj]
      exact (h.stateSound j).mono fun he => hj he.symm
  due := by
    intro s i op owed h _ houter _
    obtain ⟨m, himage, hm⟩ := h.entries
    refine ⟨⟨m, b.keeps.frame himage (World.sameInside_perform houter _),
      Sound.of_subset hm (fun _ _ he => he) (Op.writesTo_outer houter)⟩, fun j => ?_⟩
    by_cases hj : j = i
    · subst hj
      simp only [PoolState.step, Function.update_self]
      cases taskAt ts j <;> exact trivial
    · simp only [PoolState.step, Function.update_of_ne hj]
      exact (h.stateSound j).mono fun he => hj he.symm
  stop := by
    intro s i h
    refine ⟨h.entries, fun j => ?_⟩
    by_cases hj : j = i
    · subst hj
      simp only [PoolState.stop, Function.update_self]
      cases taskAt ts j <;> exact trivial
    · simp only [PoolState.stop, Function.update_of_ne hj]
      exact h.stateSound j
  clock := by
    intro s now h
    obtain ⟨m, himage, hm⟩ := h.entries
    exact ⟨⟨m, b.keeps.frame himage ⟨rfl, rfl, rfl, rfl, rfl⟩, hm⟩, h.stateSound⟩

namespace StoreKind

variable {b : StoreKind} {w : World}

theorem sound_after (hw : b.Fresh w) (ts : List StoreTask) (ms : List Move) :
    ∃ phase, ((b.tasks ts w).after ms).Obeys (fun i => (taskAt ts i).rules b)
        (fun i _ => (taskAt ts i).Ends b) phase ∧
      Sound b ts ⟨((b.tasks ts w).after ms).owes, ((b.tasks ts w).after ms).world, phase,
        (b.tasks ts w).events ms⟩ := by
  have hstart : Sound b ts ⟨(b.tasks ts w).owes, w, fun _ => .fresh, []⟩ := by
    refine ⟨⟨[], hw.image, fun key e he => nomatch he⟩, fun i => ?_⟩
    cases taskAt ts i with
    | save key tokens credentials expiresAt => exact trivial
    | load key => exact fun e he => nomatch he
  exact (b.obeys_tasks ts w).after (upholds_sound b ts) hstart ms

theorem shown_passed {key : String} {e : StoredEntry} {c : Credentials}
    (h : (b.shown key e).credentials = some c) : ∃ c', e.credentials = some c' ∧
      c.clientId = c'.clientId ∧ c.clientSecret = c'.clientSecret := by
  cases b with
  | memory => exact ⟨c, h, rfl, rfl⟩
  | documents =>
    obtain ⟨c', hc', rfl⟩ := Option.map_eq_some_iff.mp h
    exact ⟨c', (Option.filter_eq_some_iff.mp hc').1, rfl, rfl⟩
  | sealedDocuments ck => exact ⟨c, h, rfl, rfl⟩

theorem found_of_result (hb : b ≠ .memory) (hw : b.Fresh w) {ts : List StoreTask} {ms : List Move}
    {i : Nat} {key : String} (hi : ts[i]? = some (.load key)) {entry : StoredEntry}
    (hresult : ((((b.tasks ts w).after ms).tasks[i]?).bind Task.result?) =
      some (.ok (some entry))) :
    ∃ before later doc e, (b.tasks ts w).events ms =
        before ++ ⟨i, .find key, .ok (some doc)⟩ :: later ∧
      (∀ ev ∈ before, ev.task ≠ i) ∧ Source ts before key e ∧ entry = b.shown key e := by
  obtain ⟨phase, hobeys, hsound⟩ := sound_after hw ts ms
  obtain ⟨t, ht, hr⟩ := Option.bind_eq_some_iff.mp hresult
  have hstate := hsound.stateSound i
  have hrules := hobeys i t ht
  simp only [taskAt_eq hi] at hstate hrules
  cases t with
  | leaving owed => cases hr
  | running p owed =>
    cases p with
    | fail e => cases hr
    | step op next => cases hr
    | done a =>
      cases hr
      obtain ⟨e, doc, now, hentry, hphase, hdoc, -⟩ := hrules.1 hb _ rfl
      simp only [hphase] at hstate
      obtain ⟨before, later, e', hpast, hfirst, hdoc', hsource⟩ := hstate.1
      refine ⟨before, later, doc, e', hpast, hfirst, hsource, ?_⟩
      rw [Option.some.inj hentry]
      exact Option.some.inj (hdoc.entryIn?.symm.trans hdoc'.entryIn?)

theorem expired_of_purged (hb : b ≠ .memory) (hw : b.Fresh w) {ts : List StoreTask} {ms : List Move}
    {mv : Move} {key : String} {doc : Document}
    (hbefore : ((b.tasks ts w).after ms).world.find key = .ok (some doc))
    (hafter : ((b.tasks ts w).after (ms ++ [mv])).world.find key = .ok none) :
    ∃ i expiry now, mv = .run i ∧ ts[i]? = some (.load key) ∧
      (∀ t, ⟨i, .now, t⟩ ∈ (b.tasks ts w).events ms ↔ t = now) ∧
      expiryOf? doc = some expiry ∧ expiry.before now = true := by
  obtain ⟨phase, hobeys, hsound⟩ := sound_after hw ts ms
  obtain ⟨m, himage, -⟩ := hsound.entries
  have hstored : ∃ e, Dict.get? m key = some e ∧ b.Documented key e doc := by
    rcases find_documented himage hb key with ⟨-, hfind⟩ | ⟨e, doc', he, hfind, hdoc⟩
    · cases hbefore.symm.trans hfind
    · cases hbefore.symm.trans hfind
      exact ⟨e, he, hdoc⟩
  obtain ⟨e, he, hdoc⟩ := hstored
  rw [TaskPool.after_concat] at hafter
  cases mv with
  | cancel i =>
    rcases TaskPool.move_cancel_cases ((b.tasks ts w).after ms) i with h | ⟨p, owed, ht, h⟩
    · rw [h] at hafter
      cases hbefore.symm.trans hafter
    · rw [h] at hafter
      cases hbefore.symm.trans hafter
  | clock now =>
    exact absurd hafter (find_ne_none (b.keeps.frame himage ⟨rfl, rfl, rfl, rfl, rfl⟩) hb he)
  | run i =>
    rcases TaskPool.move_run_cases ((b.tasks ts w).after ms) i with
      h | ⟨op, next, owed, ht, -, h⟩ | ⟨op, owed, ht, h⟩
    · rw [h] at hafter
      cases hbefore.symm.trans hafter
    · rw [h] at hafter
      have hstate := hsound.stateSound i
      obtain ⟨doc', now, htask, hphase, hexpired⟩ :=
        Allows.purge_of_vanished (hobeys i _ ht).1.1 hb himage he hafter
      simp only [htask, hphase] at hstate
      have hi : i < ts.length := by
        have hlength := (b.tasks ts w).length_after ms
        rw [tasks, List.length_map] at hlength
        rw [← hlength]
        exact (List.getElem?_eq_some_iff.mp ht).1
      refine ⟨i, e.expiresAt, now, rfl, ?_, hstate.2, hdoc.expiryOf?, hexpired⟩
      rw [← htask, taskAt, List.getD_eq_getElem?_getD, List.getElem?_eq_getElem hi]
      rfl
    · rw [h] at hafter
      have houter := (hobeys i _ ht).2 op List.mem_cons_self
      exact absurd hafter
        (find_ne_none (b.keeps.frame himage (World.sameInside_perform houter _)) hb he)

/-- A load that ends well gives out the pair and the expiry of the save that had written last when
it found its document, with a registration from one save; and a document that vanishes was purged by
a load whose look at the clock came after its expiry. -/
theorem loads_whole_purges_expired (hb : b ≠ .memory) (hw : b.Fresh w) (ts : List StoreTask)
    (ms : List Move) :
    (∀ i key entry, ts[i]? = some (.load key) →
      (((b.tasks ts w).after ms).tasks[i]?).bind Task.result? = some (.ok (some entry)) →
      ∃ before later doc, (b.tasks ts w).events ms =
          before ++ ⟨i, .find key, .ok (some doc)⟩ :: later ∧ (∀ ev ∈ before, ev.task ≠ i) ∧
        (∃ j tokens credentials expiresAt, lastWriter key before = some j ∧
          ts[j]? = some (.save key tokens credentials expiresAt) ∧
          entry.tokens.accessToken = tokens.accessToken ∧
          entry.tokens.refreshToken = tokens.refreshToken ∧ entry.expiresAt = expiresAt) ∧
        ∀ c, entry.credentials = some c → ∃ c', Passed ts before key c' ∧
          c.clientId = c'.clientId ∧ c.clientSecret = c'.clientSecret) ∧
    (∀ mv key doc, ((b.tasks ts w).after ms).world.find key = .ok (some doc) →
      ((b.tasks ts w).after (ms ++ [mv])).world.find key = .ok none →
      ∃ i expiry now, mv = .run i ∧ ts[i]? = some (.load key) ∧
        (∀ t, ⟨i, .now, t⟩ ∈ (b.tasks ts w).events ms ↔ t = now) ∧
        expiryOf? doc = some expiry ∧ expiry.before now = true) := by
  refine ⟨fun i key entry hi hresult => ?_, fun mv key doc => expired_of_purged hb hw⟩
  obtain ⟨before, later, doc, e, hevents, hfirst, ⟨⟨j, credentials, hlast, hj⟩, hpassed⟩, rfl⟩ :=
    found_of_result hb hw hi hresult
  have hlooks := b.shown_looksLike key e
  refine ⟨before, later, doc, hevents, hfirst, ⟨j, _, credentials, _, hlast, hj,
    hlooks.accessToken, hlooks.refreshToken, hlooks.expiresAt⟩, fun c hc => ?_⟩
  obtain ⟨c', hc', hid, hsecret⟩ := shown_passed hc
  exact ⟨c', hpassed c' hc', hid, hsecret⟩

end StoreKind

/-! ### A load after a save -/

namespace SavedOnce

def tokens : Tokens := ⟨"at_1", "rt_1", 300⟩

def registration : Option Credentials := some ⟨"u1", "cid", "cs"⟩

def tasks : List StoreTask := [.save "u1" tokens registration .epoch, .load "u1"]

def pool : TaskPool (Option StoredEntry) :=
  StoreKind.documents.tasks tasks (World.isolated .epoch .empty)

def moves : List Move := [.run 0, .run 1, .run 1]

theorem loaded : ((pool.after moves).tasks[1]?).bind Task.result? =
    some (.ok (some (TokenDocument.shown "u1" ⟨tokens, registration, .epoch⟩))) := by
  have hsave : pool.tasks[0]? = some (.running (.step (.upsert "u1"
    (TokenDocument.fields "u1" tokens registration .epoch)) fun answer =>
      (Program.ofExcept answer).bind fun _ => .done none) []) := rfl
  have hempty : pool.world.Holds (TokenDocument.holdings []) :=
    (emptyCollection_isolated .epoch .empty).holds
  obtain ⟨w', hupsert, hsame, hholds⟩ :=
    TokenDocument.perform_upsert hempty "u1" tokens registration .epoch
  obtain ⟨-, hworld⟩ := TaskPool.task_move_run hsave rfl hupsert
  have hload : (pool.move (.run 0)).tasks[1]? = some (.running (.step (.find "u1") fun answer =>
      ((((Program.ofExcept answer).bind _).bind (StoreKind.documents.opened "u1")).bind
        fun e => .done (some e))) []) := TaskPool.task_move_other nofun nofun
  have hfind : World.perform (.find "u1") (pool.move (.run 0)).world =
      (.ok (some (TokenDocument.fields "u1" tokens registration .epoch)), w') := by
    rw [hworld]
    exact congrArg (·, w') (hholds.find "u1")
  obtain ⟨hfound, hworld'⟩ := TaskPool.task_move_run hload rfl hfind
  have hdoc : StoreKind.documents.Documented "u1" ⟨tokens, registration, .epoch⟩
      (TokenDocument.fields "u1" tokens registration .epoch) := rfl
  have hlook : ((pool.move (.run 0)).move (.run 1)).tasks[1]? =
      some (.running ((StoreKind.documents.opened "u1"
        (TokenDocument.fields "u1" tokens registration .epoch)).bind fun e => .done (some e)) []) :=
    hfound
  rw [hdoc.opened] at hlook
  have hclock : World.perform .now ((pool.move (.run 0)).move (.run 1)).world =
      (.epoch, w') := by
    rw [hworld']
    exact congrArg (·, w') hsame.sameOutside.clock
  obtain ⟨hdone, -⟩ := TaskPool.task_move_run hlook rfl hclock
  have hlive : StoredEntry.isExpiredAt ⟨tokens, registration, .epoch⟩ .epoch = false :=
    Instant.before_irrefl .epoch
  simp only [moves, TaskPool.after, List.foldl]
  rw [hdone]
  simp only [hlive, Bool.false_eq_true, if_false]
  rfl

theorem loaded_from_save : ∃ before later doc,
    pool.events moves = before ++ ⟨1, .find "u1", .ok (some doc)⟩ :: later ∧
      lastWriter "u1" before = some 0 := by
  have hfresh : StoreKind.documents.Fresh (World.isolated .epoch .empty) :=
    emptyCollection_isolated .epoch .empty
  have hdocuments : StoreKind.documents ≠ .memory := nofun
  obtain ⟨hloads, -⟩ := StoreKind.loads_whole_purges_expired hdocuments hfresh tasks moves
  obtain ⟨before, later, doc, hevents, -, ⟨j, t, c, x, hlast, hj, -⟩, -⟩ :=
    hloads 1 "u1" _ rfl loaded
  refine ⟨before, later, doc, hevents, ?_⟩
  rw [hlast]
  rcases j with _ | _ | j
  · rfl
  · cases hj
  · cases hj

end SavedOnce
end TokenKeeper
