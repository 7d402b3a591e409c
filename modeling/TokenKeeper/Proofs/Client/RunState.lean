import TokenKeeper.Proofs.Client.Stages
import TokenKeeper.Proofs.Store.Tasks

/-!
# What steps of a client do to pairs

Where refresh tokens can be is in the store, in the pairs that the endpoint is still to grant, and
with the tasks, by their stages. The state of a run has these three and the history. Each step that
a task may take has one of a few effects on it, whichever back end there is; and two tasks are never
under the lock of one key.
-/
namespace TokenKeeper

structure RunState where
  entries : Dict StoredEntry
  grants : List String
  stage : Nat → Stage
  past : List Event

/-- The steps that touch neither pairs nor stages, or remove an entry at most. -/
def Op.isNeutral : Op → Bool
  | .nonce | .count _ | .deleteIf .. | .checkout _ | .retire _ | .forget _ => true
  | _ => false

def OnlyRemoves (m m' : Dict StoredEntry) : Prop :=
  ∀ key e, Dict.get? m' key = some e → Dict.get? m key = some e

theorem OnlyRemoves.refl (m : Dict StoredEntry) : OnlyRemoves m m := fun _ _ he => he

theorem OnlyRemoves.erase (m : Dict StoredEntry) (key : String) :
    OnlyRemoves m (Dict.erase m key) := by
  intro other e he
  rw [Dict.get?_erase] at he
  split at he
  · cases he
  · exact he

/-- What a step of a task does to the entries, the grants and the stage of the task. -/
inductive Effect (client : Client) (b : StoreKind) (v : ClientTask) (m : Dict StoredEntry)
    (grants : List String) (st : Stage) :
    (op : Op) → op.Answer → Dict StoredEntry → List String → Stage → Prop
  | stay {op : Op} {answer : op.Answer} {m' : Dict StoredEntry} (hop : op.isNeutral = true)
    (hm : OnlyRemoves m m') : Effect client b v m grants st op answer m' grants st
  | enter (slot : Slot) (hst : st = .outside) :
    Effect client b v m grants st (.acquire slot) () m grants .entered
  | leave (slot : Slot) : Effect client b v m grants st (.release slot) () m grants st.leave
  | look (now : Instant) : Effect client b v m grants st .now now m grants (st.look now)
  | find (answer : Except Failure (Option Document)) (hst : st ≠ .gone)
    (hseen : ∀ e, b.seen? v.key (.find v.key) answer = some e →
      ∃ stored, Dict.get? m v.key = some stored ∧ e = b.shown v.key stored) :
    Effect client b v m grants st (.find v.key) answer m grants
      (st.find (b.seen? v.key (.find v.key) answer))
  | fetch {answer : Except Failure StoredEntry} {m' : Dict StoredEntry} (hst : st ≠ .gone)
    (hm : OnlyRemoves m m') (hseen : ∀ e, b.seen? v.key (.recall v.key) answer = some e →
      ∃ stored, Dict.get? m v.key = some stored ∧ e = b.shown v.key stored) :
    Effect client b v m grants st (.recall v.key) answer m' grants
      (st.read (b.seen? v.key (.recall v.key) answer))
  | ask {form : Form} (x : Exchange) {grants' : List String}
    (h : v.Allows client b st (.post form))
    (hgrants : grants = (x.pair?.map (·.refreshToken)).toList ++ grants') :
    Effect client b v m grants st (.post form) x m grants' (Stage.ask x)
  | write {op : Op} {answer : op.Answer} {pair : Tokens} {credentials : Option Credentials}
    {expiresAt : Instant} (h : b.Writes v.key pair credentials expiresAt op)
    (hst : st = .granted pair) (registration : Option Credentials) :
    Effect client b v m grants st op answer
      (Dict.insert m v.key ⟨pair, registration, expiresAt⟩) grants .finished

/-! ### What an effect can be -/

section

variable {client : Client} {b : StoreKind} {v : ClientTask}

theorem ClientTask.Allows.post_cases {st : Stage} {form : Form}
    (h : v.Allows client b st (.post form)) :
    ((∃ key, v = .accessToken key) ∧ ∃ e now credentials, st = .reread (some e) (some now) ∧
      client.needsRefresh now e.expiresAt = true ∧
      form = refreshForm e.tokens.refreshToken credentials) ∨
    ((∀ key, v ≠ .accessToken key) ∧ st = .outside) := by
  cases h with
  | lock hop => cases hop
  | @refresh key e now hv hdue credentials =>
    exact .inl ⟨⟨key, hv⟩, e, now, credentials, rfl, hdue, rfl⟩
  | login hv => exact .inr ⟨hv, rfl⟩
  | write h => cases h

namespace Effect

variable {m m' : Dict StoredEntry} {grants grants' : List String} {st st' : Stage} {op : Op}
  {answer : op.Answer}

theorem next (h : Effect client b v m grants st op answer m' grants' st') :
    st' = st.next b v.key op answer := by
  cases h with
  | stay hop => cases op <;> first | rfl | cases hop
  | write hwrites => exact (Stage.next_of_writes hwrites).symm
  | _ => rfl

theorem sublist (h : Effect client b v m grants st op answer m' grants' st') :
    grants'.Sublist grants := by
  cases h with
  | ask x h hgrants =>
    rw [hgrants]
    exact List.sublist_append_right _ _
  | _ => exact List.Sublist.refl _

theorem ask_cases {form : Form} {x : Exchange}
    (h : Effect client b v m grants st (.post form) x m' grants' st') :
    v.Allows client b st (.post form) ∧ m' = m ∧ st' = Stage.ask x ∧
      grants = (x.pair?.map (·.refreshToken)).toList ++ grants' := by
  cases h with
  | ask x h hgrants => exact ⟨h, rfl, rfl, hgrants⟩
  | stay hop => cases hop
  | write h => cases h

theorem granted {pair : Tokens} (h : Effect client b v m grants st op answer m' grants' st')
    (hst' : st' = .granted pair) : (st = .granted pair ∧ grants' = grants) ∨
      ((∃ form, op = .post form) ∧ grants = pair.refreshToken :: grants') := by
  cases h with
  | stay => exact .inl ⟨hst', rfl⟩
  | enter => cases hst'
  | leave => cases st <;> cases hst'
  | look => exact .inl ⟨by cases st <;> cases hst'; rfl, rfl⟩
  | find => exact .inl ⟨by cases st <;> cases hst'; rfl, rfl⟩
  | fetch => exact .inl ⟨by cases st <;> cases hst'; rfl, rfl⟩
  | @ask form x _ _ hgrants =>
    refine .inr ⟨⟨form, rfl⟩, ?_⟩
    cases hx : x.pair? with
    | none =>
      rw [Stage.ask_none hx] at hst'
      cases hst'
    | some granted =>
      rw [Stage.ask_some hx] at hst'
      cases hst'
      rw [hgrants, hx]
      rfl
  | write => cases hst'

theorem stored {key : String} {e : StoredEntry}
    (h : Effect client b v m grants st op answer m' grants' st')
    (he : Dict.get? m' key = some e) : Dict.get? m key = some e ∨
      (key = v.key ∧ st = .granted e.tokens ∧ st' = .finished ∧ op.writesTo key = true) := by
  cases h with
  | stay hop hm => exact .inl (hm key e he)
  | fetch hst hm => exact .inl (hm key e he)
  | write hwrites hst registration =>
    rw [Dict.get?_insert] at he
    by_cases hkey : v.key = key
    · rw [if_pos hkey] at he
      cases he
      refine .inr ⟨hkey.symm, hst, rfl, ?_⟩
      rw [hwrites.writesTo, hkey, beq_self_eq_true]
    · rw [if_neg hkey] at he
      exact .inl he
  | _ => exact .inl he

theorem hand {e : StoredEntry} (h : Effect client b v m grants st op answer m' grants' st')
    (hst' : st'.sees = some e) : st.sees = some e ∨
      ∃ stored, Dict.get? m v.key = some stored ∧ e = b.shown v.key stored := by
  cases h with
  | stay => exact .inl hst'
  | enter => cases hst'
  | leave => cases st <;> cases hst'
  | look t =>
    cases st with
    | found seen => exact .inl (Option.filter_eq_some_iff.mp hst').1
    | _ => exact .inl hst'
  | find answer hst hseen =>
    cases st with
    | entered => exact .inr (hseen e hst')
    | _ => exact .inl hst'
  | fetch hst hm hseen =>
    cases st with
    | entered => exact .inr (hseen e hst')
    | _ => exact .inl hst'
  | ask x =>
    rw [Stage.ask] at hst'
    split at hst' <;> cases hst'
  | write => cases hst'

theorem judged {e : StoredEntry} {t : Instant}
    (h : Effect client b v m grants st op answer m' grants' st')
    (hst' : st' = .reread (some e) (some t)) : st = .reread (some e) (some t) ∨
      ((∃ before, st = .reread (some e) before) ∧
        ∀ i, (⟨i, op, answer⟩ : Event) = ⟨i, .now, t⟩) := by
  cases h with
  | stay => exact .inl hst'
  | enter => cases hst'
  | leave => cases st <;> cases hst'
  | look now =>
    cases st with
    | reread seen before =>
      cases hst'
      exact .inr ⟨⟨before, rfl⟩, fun _ => rfl⟩
    | found seen => exact absurd (Stage.reread.inj hst').2 nofun
    | _ => cases hst'
  | find =>
    cases st with
    | entered => cases hst'
    | _ => exact .inl hst'
  | fetch =>
    cases st with
    | entered => exact absurd (Stage.reread.inj hst').2 nofun
    | _ => exact .inl hst'
  | ask x =>
    rw [Stage.ask] at hst'
    split at hst' <;> cases hst'
  | write => cases hst'

theorem write_cases {key : String} (h : Effect client b v m grants st op answer m' grants' st')
    (hop : op.writesTo key = true) : ∃ pair credentials expiresAt registration,
      b.Writes v.key pair credentials expiresAt op ∧ st = .granted pair ∧
      m' = Dict.insert m v.key ⟨pair, registration, expiresAt⟩ ∧ st' = .finished := by
  cases h with
  | @write _ _ pair credentials expiresAt h hst registration =>
    exact ⟨pair, credentials, expiresAt, registration, h, hst, rfl, rfl⟩
  | stay hneutral => cases op <;> first | cases hop | cases hneutral
  | _ => cases hop

theorem of_seen {e : StoredEntry} {now : Option Instant}
    (h : Effect client b v m grants st op answer m' grants' st')
    (hst : st = .reread (some e) now ∨ st = .left (some e) now)
    (hnow : ∀ t, now = some t → client.needsRefresh t e.expiresAt = false) :
    (∀ form, op ≠ .post form) ∧ ∃ now', (st' = .reread (some e) now' ∨ st' = .left (some e) now') ∧
      (now' = now ∨ ∃ t, now' = some t ∧ ∀ i, (⟨i, op, answer⟩ : Event) = ⟨i, .now, t⟩) := by
  have hallows : ∀ form, ¬ v.Allows client b st (.post form) := by
    intro form hallows
    rcases hallows.post_cases with ⟨-, e', t, credentials, rfl, hdue, -⟩ | ⟨-, rfl⟩
    · rcases hst with hst | hst
      · cases hst
        rw [hnow t rfl] at hdue
        cases hdue
      · cases hst
    · rcases hst with hst | hst <;> cases hst
  refine ⟨?_, ?_⟩
  · rintro form rfl
    exact hallows form h.ask_cases.1
  · cases h with
    | stay => exact ⟨now, hst, .inl rfl⟩
    | enter slot houtside =>
      subst houtside
      rcases hst with hst | hst <;> cases hst
    | leave =>
      rcases hst with rfl | rfl
      · exact ⟨now, .inr rfl, .inl rfl⟩
      · exact ⟨now, .inr rfl, .inl rfl⟩
    | look t =>
      rcases hst with rfl | rfl
      · exact ⟨some t, .inl rfl, .inr ⟨t, rfl, fun _ => rfl⟩⟩
      · exact ⟨now, .inr rfl, .inl rfl⟩
    | find => exact ⟨now, by rcases hst with rfl | rfl <;> simp [Stage.find], .inl rfl⟩
    | fetch => exact ⟨now, by rcases hst with rfl | rfl <;> simp [Stage.read], .inl rfl⟩
    | @ask form _ _ hask => exact absurd hask (hallows form)
    | write _ hgranted =>
      subst hgranted
      rcases hst with hst | hst <;> cases hst

theorem of_granted {pair : Tokens} (h : Effect client b v m grants (.granted pair) op answer m'
    grants' st') : st' = .granted pair ∨ st' = .finished := by
  cases h with
  | enter slot hst => cases hst
  | leave slot => exact .inr rfl
  | ask x h =>
    rcases h.post_cases with ⟨-, e, now, credentials, hst, -⟩ | ⟨-, hst⟩
    · cases hst
    · cases hst
  | write => exact .inr rfl
  | _ => exact .inl rfl

theorem of_done (h : Effect client b v m grants st op answer m' grants' st')
    (hst : st = .finished ∨ st = .gone) : st' = st ∧ ∀ form, op ≠ .post form := by
  have hallows : ∀ form, ¬ v.Allows client b st (.post form) := by
    intro form hallows
    rcases hallows.post_cases with ⟨-, e, now, credentials, rfl, -⟩ | ⟨-, rfl⟩
    · rcases hst with h | h <;> cases h
    · rcases hst with h | h <;> cases h
  refine ⟨?_, ?_⟩
  · cases h with
    | stay => rfl
    | enter slot houtside =>
      subst houtside
      rcases hst with h | h <;> cases h
    | leave => rcases hst with rfl | rfl <;> rfl
    | look => rcases hst with rfl | rfl <;> rfl
    | find => rcases hst with rfl | rfl <;> rfl
    | fetch => rcases hst with rfl | rfl <;> rfl
    | @ask form _ _ hask => exact absurd hask (hallows form)
    | write _ hgranted =>
      subst hgranted
      rcases hst with h | h <;> cases h
  · rintro form rfl
    exact hallows form h.ask_cases.1

end Effect

end

/-! ### Steps and their effects -/

theorem Memory.load_cases (m : Dict StoredEntry) (now : Instant) (key : String) :
    OnlyRemoves m (load m now key).2 ∧
      ∀ e, (load m now key).1 = .ok e → Dict.get? m key = some e := by
  cases hm : Dict.get? m key with
  | none =>
    rw [load_absent hm]
    exact ⟨.refl m, fun _ he => nomatch he⟩
  | some e =>
    cases he : e.isExpiredAt now with
    | true =>
      rw [load_expired hm he]
      exact ⟨.erase m key, fun _ he => nomatch he⟩
    | false =>
      rw [load_live hm he]
      exact ⟨.refl m, fun _ he => by cases he; rfl⟩

theorem StoreKind.seen?_find {b : StoreKind} {m : Dict StoredEntry} {w : World}
    (himage : b.image m w) (hb : b ≠ .memory) {key : String} {e : StoredEntry}
    (h : b.seen? key (.find key) (w.find key) = some e) :
    ∃ stored, Dict.get? m key = some stored ∧ e = b.shown key stored := by
  rcases find_documented himage hb key with ⟨-, hfind⟩ | ⟨stored, doc, hstored, hfind, hdoc⟩
  · rw [hfind] at h
    cases h
  · rw [hfind] at h
    have hshown : b.entryIn? key doc = some e := h
    rw [hdoc.entryIn?] at hshown
    cases hshown
    exact ⟨stored, hstored, rfl⟩

theorem World.endpoint_perform {op : Op} (h : ∀ form, op ≠ .post form) (w : World) :
    (perform op w).2.endpoint = w.endpoint := by
  cases houter : op.isOuter with
  | false => exact (sameOutside_perform houter w).endpoint
  | true =>
    cases op with
    | post form => exact absurd rfl (h form)
    | _ => first | contradiction | rfl

section

variable {client : Client} {b : StoreKind} {v : ClientTask} {m : Dict StoredEntry} {w : World}
  {st : Stage}

theorem ClientTask.Allows.effect {op : Op} (h : v.Allows client b st op) (hst : st ≠ .gone)
    (himage : b.image m w) : ∃ m', b.image m' (World.perform op w).2 ∧
      Effect client b v m w.endpoint.grants st op (World.perform op w).1 m'
        (World.perform op w).2.endpoint.grants (st.next b v.key op (World.perform op w).1) := by
  have houter : op.isOuter = true → b.image m (World.perform op w).2 :=
    fun h => b.keeps.frame himage (World.sameInside_perform h w)
  cases h with
  | acquire slot => exact ⟨m, houter rfl, .enter slot rfl⟩
  | lock hop hacquire =>
    cases op with
    | acquire slot => exact absurd rfl (hacquire slot)
    | release slot => exact ⟨m, houter rfl, .leave slot⟩
    | checkout key => exact ⟨m, houter rfl, .stay rfl (.refl m)⟩
    | retire slot => exact ⟨m, houter rfl, .stay rfl (.refl m)⟩
    | forget slot => exact ⟨m, houter rfl, .stay rfl (.refl m)⟩
    | _ => contradiction
  | now => exact ⟨m, houter rfl, .look _⟩
  | count counter => exact ⟨m, houter rfl, .stay rfl (.refl m)⟩
  | nonce => exact ⟨m, b.keeps.frame himage ⟨rfl, rfl, rfl, rfl, rfl⟩, .stay rfl (.refl m)⟩
  | find hb =>
    exact ⟨m, himage, .find _ hst fun e he => StoreKind.seen?_find himage hb he⟩
  | fetch hb =>
    cases hb
    cases himage
    obtain ⟨honly, hload⟩ := Memory.load_cases w.memory w.clock v.key
    refine ⟨_, rfl, .fetch hst honly fun e he => ⟨e, hload e ?_, rfl⟩⟩
    have hanswer : (Memory.load w.memory w.clock v.key).1.toOption = some e := he
    cases hresult : (Memory.load w.memory w.clock v.key).1 with
    | ok e' =>
      rw [hresult] at hanswer
      cases hanswer
      rfl
    | error failure =>
      rw [hresult] at hanswer
      cases hanswer
  | purge hb text =>
    obtain ⟨removed, -, -, himage'⟩ := StoreKind.perform_purge himage hb v.key text
    refine ⟨_, himage', ?_⟩
    rw [World.endpoint_perform (by rintro form ⟨⟩)]
    refine .stay rfl ?_
    split
    · exact .erase m v.key
    · exact .refl m
  | refresh hv hdue credentials =>
    exact ⟨m, houter rfl, .ask _ (.refresh hv hdue credentials) w.endpoint.grants_respond⟩
  | login hv form =>
    exact ⟨m, houter rfl, .ask _ (.login hv form) w.endpoint.grants_respond⟩
  | write hwrites =>
    have hpost : ∀ form, op ≠ .post form := by
      rintro form rfl
      cases hwrites
    refine ⟨_, hwrites.image himage, ?_⟩
    rw [World.endpoint_perform hpost, Stage.next_of_writes hwrites]
    exact .write hwrites rfl _

theorem ClientTask.Allows.answers {op : Op} (h : v.Allows client b st op) (himage : b.image m w) :
    b.Answers op (World.perform op w).1 := by
  cases h with
  | lock hop => cases op <;> first | contradiction | exact trivial
  | find hb => exact StoreKind.answers_find himage hb v.key
  | purge hb text => exact StoreKind.answers_purge himage hb v.key text
  | write hwrites => exact hwrites.answers himage
  | _ => exact trivial

/-! ### Under the lock -/

theorem ClientTask.Allows.holdsAfter {key : String} {op : Op}
    (h : (ClientTask.accessToken key).Allows client b st op) {held : Bool}
    (hheld : st.IsUnder → held = true) {answer : op.Answer}
    (hnext : (st.next b key op answer).IsUnder) : op.holdsAfter held = true := by
  cases h with
  | acquire slot => rfl
  | lock hop hacquire =>
    cases op with
    | acquire slot => exact absurd rfl (hacquire slot)
    | release slot => cases st <;> cases hnext
    | checkout key => exact hheld hnext
    | retire slot => exact hheld hnext
    | forget slot => exact hheld hnext
    | _ => contradiction
  | now => exact hheld (by cases st <;> first | exact hnext | exact .found _ | exact .reread _ _)
  | find hb => exact hheld (by cases st <;> first | exact hnext | exact .entered)
  | fetch hb => exact hheld (by cases st <;> first | exact hnext | exact .entered)
  | count counter => exact hheld hnext
  | nonce => exact hheld hnext
  | purge hb text => exact hheld hnext
  | refresh hv hdue credentials => exact hheld (.reread _ _)
  | login hv form => exact absurd rfl (hv key)
  | write hwrites =>
    rw [Stage.next_of_writes hwrites] at hnext
    cases hnext

/-- The locks are guarded, and callers under a lock owe its release. -/
structure GuardedStages (calls : List ClientTask) (owes : List (List Op)) (f : Flight)
    (stage : Nat → Stage) : Prop where
  guarded : Guarded (fun i => (callAt calls i).key) owes f
  under : ∀ i key, callAt calls i = .accessToken key → (stage i).IsUnder →
    (owes[i]?).any owesRelease = true

namespace GuardedStages

variable {calls : List ClientTask} {owes : List (List Op)} {stage : Nat → Stage} {i : Nat} {op : Op}
  {owed : List Op}

theorem exclusive {f : Flight} (h : GuardedStages calls owes f stage) {j : Nat} {key : String}
    (hij : i ≠ j) (hi : callAt calls i = .accessToken key)
    (hj : callAt calls j = .accessToken key) (hunder : (stage i).IsUnder) :
    ¬ (stage j).IsUnder := by
  intro hunder'
  obtain ⟨a, slot, ha, hslot⟩ := exists_owed_release (h.under i key hi hunder)
  obtain ⟨b, slot', hb, hslot'⟩ := exists_owed_release (h.under j key hj hunder')
  refine h.guarded.exclusive hij ha hb hslot hslot' ?_
  simp only [hi, hj]

theorem update {f f' : Flight} (h : GuardedStages calls owes f stage) {new : List Op}
    (hi : owes[i]? = some owed)
    (hguarded : Guarded (fun i => (callAt calls i).key) (owes.set i new) f') {next : Stage}
    (hunder : ∀ key, callAt calls i = .accessToken key → next.IsUnder →
      owesRelease new = true) :
    GuardedStages calls (owes.set i new) f' (Function.update stage i next) := by
  refine ⟨hguarded, fun j key hj => ?_⟩
  by_cases hij : j = i
  · subst hij
    rw [Function.update_self, List.getElem?_set_self (List.getElem?_eq_some_iff.mp hi).1,
      Option.any_some]
    exact hunder key hj
  · rw [Function.update_of_ne hij, List.getElem?_set_ne fun he => hij he.symm]
    exact h.under j key hj

theorem step (h : GuardedStages calls owes w.flight stage) (hi : owes[i]? = some owed)
    (he : World.enabled op w = true)
    (hallows : ((callAt calls i).stages client b).allows owed (stage i) op) :
    op.Fitting (World.perform op w).1 ∧
      GuardedStages calls (owes.set i (Task.owe owed op (World.perform op w).1))
        (World.perform op w).2.flight (Function.update stage i
          ((stage i).next b (callAt calls i).key op (World.perform op w).1)) := by
  obtain ⟨hfits, -, hstep⟩ := hallows
  obtain ⟨hfitting, hguarded⟩ := h.guarded.perform hi he hfits
  refine ⟨hfitting, h.update hi hguarded fun key hkey hnext => ?_⟩
  rw [hfits.owesRelease]
  rw [hkey] at hstep hnext
  refine hstep.holdsAfter (fun hunder => ?_) hnext
  have howes := h.under i key hkey hunder
  rw [hi, Option.any_some] at howes
  exact howes

theorem due (h : GuardedStages calls owes w.flight stage) (hi : owes[i]? = some (op :: owed)) :
    (op.isNeutral = true ∨ ∃ slot, op = .release slot) ∧
      GuardedStages calls (owes.set i owed) (World.perform op w).2.flight
        (Function.update stage i .gone) := by
  obtain ⟨hfits, howe, henabled⟩ := h.guarded.fits_due hi
  obtain ⟨-, hguarded⟩ := h.guarded.perform hi (henabled w) hfits
  rw [howe] at hguarded
  refine ⟨?_, h.update hi hguarded fun _ _ hnext => nomatch hnext⟩
  obtain ⟨slot, -, howes⟩ := h.guarded.dues hi
  cases howes with
  | lock => exact .inr ⟨slot, rfl⟩
  | _ => exact .inl rfl

theorem stop {f : Flight} (h : GuardedStages calls owes f stage) (i : Nat) :
    GuardedStages calls owes f (Function.update stage i .gone) := by
  refine ⟨h.guarded, fun j key hj hunder => ?_⟩
  by_cases hij : j = i
  · subst hij
    rw [Function.update_self] at hunder
    cases hunder
  · rw [Function.update_of_ne hij] at hunder
    exact h.under j key hj hunder

end GuardedStages

/-! ### Ledgers of crews -/

inductive RunState.MoveCases (client : Client) (b : StoreKind) (calls : List ClientTask)
    (l : RunState) :
    Option Event → RunState → Prop
  | idle : MoveCases client b calls l none l
  | step {i : Nat} {op : Op} {answer : op.Answer} {m' : Dict StoredEntry} {grants' : List String}
    {st' : Stage} (h : Effect client b (callAt calls i) l.entries l.grants (l.stage i) op answer
      m' grants' st') : MoveCases client b calls l (some ⟨i, op, answer⟩)
        ⟨m', grants', Function.update l.stage i st', l.past ++ [⟨i, op, answer⟩]⟩
  | stop (i : Nat) : MoveCases client b calls l none
    { l with stage := Function.update l.stage i .gone }

theorem RunState.MoveCases.past {calls : List ClientTask} {l : RunState} {e : Option Event}
    {l' : RunState} (h : l.MoveCases client b calls e l') : l'.past = l.past ++ e.toList := by
  cases h with
  | step heffect => rfl
  | _ => exact (List.append_nil l.past).symm

/-- Callers whose keys are the same are not both under a lock. -/
def RunState.Exclusive (calls : List ClientTask) (l : RunState) : Prop :=
  ∀ i j key, i ≠ j → callAt calls i = .accessToken key → callAt calls j = .accessToken key →
    (l.stage i).IsUnder → ¬ (l.stage j).IsUnder

structure StateOf (client : Client) (b : StoreKind) (calls : List ClientTask) (c : TaskPool String)
    (l : RunState) : Prop where
  obeys : c.Obeys (fun i => (callAt calls i).stages client b)
    (fun i _ => (callAt calls i).Ends client) l.stage
  guardedStages : GuardedStages calls c.owes c.world.flight l.stage
  image : b.image l.entries c.world
  grants : c.world.endpoint.grants = l.grants

namespace StateOf

variable {calls : List ClientTask} {c : TaskPool String} {l : RunState}

theorem exclusive (h : StateOf client b calls c l) : l.Exclusive calls :=
  fun _ _ _ hij hi hj hunder => h.guardedStages.exclusive hij hi hj hunder

theorem start (hmode : client.mode = .singleFlight) (hw : w.flight = .empty)
    (himage : b.image m w) (calls : List ClientTask) :
    StateOf client b calls ((client.on b).pool calls w)
      ⟨m, w.endpoint.grants, fun _ => .outside, []⟩ where
  obeys := Client.obeys_stages hmode b calls w
  guardedStages := by
    rw [Client.owes_pool]
    refine ⟨?_, fun _ _ _ hunder => nomatch hunder⟩
    rw [show ((client.on b).pool calls w).world.flight = .empty from hw]
    exact .start
  image := himage
  grants := rfl

theorem move (h : StateOf client b calls c l) (mv : Move) :
    ∃ l', StateOf client b calls (c.move mv) l' ∧ l.MoveCases client b calls (c.event? mv) l' := by
  have hcases := c.moveCases mv
  generalize c.move mv = c' at hcases ⊢
  generalize c.event? mv = e at hcases ⊢
  cases hcases with
  | idle => exact ⟨l, h, .idle⟩
  | @step i op next owed ht he =>
    obtain ⟨hp, howed⟩ := h.obeys i _ ht
    obtain ⟨hfitting, hstages⟩ := h.guardedStages.step (TaskPool.getElem?_owes ht) he hp.1
    obtain ⟨m', himage, heffect⟩ := hp.1.2.2.effect hp.1.2.1 h.image
    have ht' : Task.Obeys ((callAt calls i).stages client b)
        (fun _ => (callAt calls i).Ends client) _ (.running (next (World.perform op c.world).1)
          (Task.owe owed op (World.perform op c.world).1)) :=
      ⟨hp.2 _ ⟨hfitting, hp.1.2.2.answers h.image⟩, Task.owe_outer howed op _⟩
    rw [h.grants] at heffect
    refine ⟨_, ⟨h.obeys.set ht' _, ?_, himage, rfl⟩, .step heffect⟩
    rw [TaskPool.owes_set]
    exact hstages
  | @due i op owed ht =>
    obtain ⟨hgone, howed⟩ := h.obeys i _ ht
    obtain ⟨hop, hstages⟩ := h.guardedStages.due (TaskPool.getElem?_owes ht)
    have ht' : Task.Obeys (α := String) ((callAt calls i).stages client b)
        (fun _ => (callAt calls i).Ends client) .gone (.leaving owed) :=
      ⟨rfl, fun o ho => howed o (List.mem_cons_of_mem op ho)⟩
    have hpost : ∀ form, op ≠ .post form := by
      rintro form rfl
      rcases hop with hneutral | ⟨slot, hrelease⟩
      · cases hneutral
      · cases hrelease
    have heffect : Effect client b (callAt calls i) l.entries l.grants (l.stage i) op
        (World.perform op c.world).1 l.entries l.grants .gone := by
      rw [show l.stage i = .gone from hgone]
      rcases hop with hneutral | ⟨slot, rfl⟩
      · exact .stay hneutral (.refl l.entries)
      · exact .leave slot
    refine ⟨_, ⟨h.obeys.set ht' _, ?_, ?_, ?_⟩, .step heffect⟩
    · rw [TaskPool.owes_set]
      exact hstages
    · exact b.keeps.frame h.image (World.sameInside_perform (howed op List.mem_cons_self) _)
    · change (World.perform op c.world).2.endpoint.grants = l.grants
      rw [World.endpoint_perform hpost, h.grants]
  | @stop i p owed ht =>
    obtain ⟨-, howed⟩ := h.obeys i _ ht
    have ht' : Task.Obeys (α := String) ((callAt calls i).stages client b)
        (fun _ => (callAt calls i).Ends client) .gone (.leaving owed) := ⟨rfl, howed⟩
    refine ⟨{ l with stage := Function.update l.stage i .gone },
      ⟨h.obeys.set ht' _, ?_, h.image, h.grants⟩, .stop i⟩
    obtain ⟨hlength, hget⟩ := List.getElem?_eq_some_iff.mp (TaskPool.getElem?_owes ht)
    rw [TaskPool.owes_set, Task.owed, ← show c.owes[i] = owed from hget,
      List.set_getElem_self hlength]
    exact h.guardedStages.stop i
  | clock now =>
    exact ⟨l, ⟨h.obeys, h.guardedStages, b.keeps.frame h.image ⟨rfl, rfl, rfl, rfl, rfl⟩, h.grants⟩,
      .idle⟩

theorem after (h : StateOf client b calls c l) {P : RunState → Prop}
    (hP : ∀ l e l', l.Exclusive calls → P l → l.MoveCases client b calls e l' → P l') (hl : P l)
    (ms : List Move) : ∃ l', StateOf client b calls (c.after ms) l' ∧ P l' ∧
      l'.past = l.past ++ c.events ms := by
  induction ms generalizing c l with
  | nil => exact ⟨l, h, hl, (List.append_nil l.past).symm⟩
  | cons mv ms ih =>
    obtain ⟨l₁, h₁, hcases⟩ := h.move mv
    obtain ⟨l₂, h₂, hl₂, hpast⟩ := ih h₁ (hP l _ l₁ h.exclusive hl hcases)
    refine ⟨l₂, h₂, hl₂, ?_⟩
    rw [hpast, hcases.past, List.append_assoc]
    rfl

end StateOf
end
end TokenKeeper
