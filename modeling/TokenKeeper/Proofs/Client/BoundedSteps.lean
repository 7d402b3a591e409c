import TokenKeeper.Proofs.Client.SingleFlight

/-!
# Callers get on

Once a caller has acquired the lock of its key, nothing that it does waits for others, and its end
is a bounded number of steps away. So it comes to its end if it gets its turns and is not stopped.
-/
namespace TokenKeeper

variable {α β : Type}

/-! ### Programs that end soon -/

def Op.waits : Op → Bool
  | .acquire _ => true
  | _ => false

theorem World.enabled_of_not_waits {op : Op} (h : op.waits = false) (w : World) :
    World.enabled op w = true := by
  cases op <;> first | contradiction | rfl

theorem Op.not_waits_of_unlocked {op : Op} (h : op.isLocking = false) : op.waits = false := by
  cases op <;> first | contradiction | rfl

namespace Program

def EndsWithin (n : Nat) (p : Program α) : Prop := p.TakesAtMost (fun op => op.waits = false) n

theorem endsWithin_perform {op : Op} (h : op.waits = false) : (perform op).EndsWithin 1 :=
  takesAtMost_perform h

theorem endsWithin_of_result {p : Program α} (h : p.EndsWithin 0) (owed : List Op) :
    ∃ r, (Task.running p owed).result? = some r := by
  cases p with
  | done a => exact ⟨_, rfl⟩
  | fail e => exact ⟨_, rfl⟩
  | step op next => exact h.elim

end Program

/-! ### Tasks that get their turns -/

namespace TaskPool

variable {c : TaskPool α} {i n : Nat} {p : Program α} {owed : List Op}

theorem getElem?_move_run {t : Task α} (ht : c.tasks[i]? = some t) :
    (c.move (.run i)).tasks[i]? = some (t.advance World.perform World.enabled c.world).1 := by
  simp only [move, change, ht]
  exact List.getElem?_set_self (List.getElem?_eq_some_iff.mp ht).1

theorem running_after {ms : List Move} (ht : c.tasks[i]? = some (.running p owed))
    (hcancel : .cancel i ∉ ms) :
    ∃ p' owed', (c.after ms).tasks[i]? = some (.running p' owed') := by
  induction ms generalizing c p owed with
  | nil => exact ⟨p, owed, ht⟩
  | cons m ms ih =>
    have hrest : .cancel i ∉ ms := fun hm => hcancel (List.mem_cons_of_mem m hm)
    by_cases hm : m = .run i
    · cases hm
      have hmove := getElem?_move_run ht
      have hrunning : ∃ p' owed', ((Task.running p owed).advance World.perform World.enabled
          c.world).1 = .running p' owed' := by
        cases p with
        | step op next =>
          rw [Task.advance]
          split <;> exact ⟨_, _, rfl⟩
        | _ => exact ⟨_, _, rfl⟩
      obtain ⟨p', owed', hadvance⟩ := hrunning
      rw [hadvance] at hmove
      exact ih hmove hrest
    · have hmove : (c.move m).tasks[i]? = c.tasks[i]? :=
        task_move_other hm fun he => hcancel (he ▸ List.mem_cons_self)
      exact ih (hmove.trans ht) hrest

theorem endsWithin_of_turn (ht : c.tasks[i]? = some (.running p owed)) (hp : p.EndsWithin n) :
    ∃ p' owed', (c.move (.run i)).tasks[i]? = some (.running p' owed') ∧ p'.EndsWithin (n - 1) := by
  have hmove := getElem?_move_run ht
  cases p with
  | done a => exact ⟨_, _, hmove, by cases n - 1 <;> exact trivial⟩
  | fail e => exact ⟨_, _, hmove, by cases n - 1 <;> exact trivial⟩
  | step op next =>
    cases n with
    | zero => exact hp.elim
    | succ n =>
      rw [Task.advance, if_pos (World.enabled_of_not_waits hp.1 _)] at hmove
      exact ⟨_, _, hmove, hp.2 _⟩

theorem result_of_turns {ms : List Move} (ht : c.tasks[i]? = some (.running p owed))
    (hp : p.EndsWithin n) (hcancel : .cancel i ∉ ms)
    (hturns : (List.replicate n (Move.run i)).Sublist ms) :
    ∃ p' owed' r, (c.after ms).tasks[i]? = some (.running p' owed') ∧
      (Task.running p' owed').result? = some r := by
  induction ms generalizing c n p owed with
  | nil =>
    have hzero : n = 0 := by
      rw [← List.length_replicate (n := n) (a := Move.run i)]
      exact List.length_eq_zero_iff.mpr (List.sublist_nil.mp hturns)
    cases hzero
    obtain ⟨r, hr⟩ := p.endsWithin_of_result hp owed
    exact ⟨p, owed, r, ht, hr⟩
  | cons m ms ih =>
    have hrest : .cancel i ∉ ms := fun hm => hcancel (List.mem_cons_of_mem m hm)
    by_cases hm : m = .run i
    · cases hm
      obtain ⟨p', owed', ht', hp'⟩ := endsWithin_of_turn ht hp
      refine ih ht' hp' hrest ?_
      cases n with
      | zero => exact List.nil_sublist ms
      | succ n => exact List.cons_sublist_cons.mp hturns
    · have hmove : (c.move m).tasks[i]? = c.tasks[i]? :=
        task_move_other hm fun he => hcancel (he ▸ List.mem_cons_self)
      refine ih (hmove.trans ht) hp hrest ?_
      rcases List.sublist_cons_iff.mp hturns with hsub | ⟨rest, hrest, -⟩
      · exact hsub
      · have hmem : m ∈ List.replicate n (Move.run i) := hrest ▸ List.mem_cons_self
        exact absurd (List.eq_of_mem_replicate hmem) hm

end TaskPool

/-! ### Tasks that have waited -/

/-- A task that has waited has so many steps left at most, and does not wait again. -/
def stepLimit (n : Nat) : Discipline (Option Nat) where
  allows _ left op := ∀ k, left = some k → 0 < k ∧ op.waits = false
  expects _ _ _ := True
  next left op _ := if op.waits then some n else left.map (· - 1)
  gone := some 0

section

variable {n k : Nat} {owed : List Op}

theorem Program.obeys_stepLimit {p : Program α} :
    p.Obeys (stepLimit n) (fun _ _ _ => True) owed (some k) ↔ p.EndsWithin k := by
  induction p generalizing owed k with
  | done a => cases k <;> exact ⟨fun _ => trivial, fun _ => trivial⟩
  | fail e => cases k <;> exact ⟨fun _ => trivial, fun _ => trivial⟩
  | step op next ih =>
    cases k with
    | zero => exact ⟨fun h => absurd (h.1 0 rfl).1 (Nat.lt_irrefl 0), fun h => h.elim⟩
    | succ k =>
      have hnext : op.waits = false → ∀ a, (stepLimit n).next (some (k + 1)) op a = some k := by
        intro h a
        simp only [stepLimit, h, Bool.false_eq_true, if_false, Option.map_some, Nat.add_sub_cancel]
      constructor
      · rintro ⟨hallows, hobeys⟩
        have hwaits := (hallows (k + 1) rfl).2
        refine ⟨hwaits, fun a => ?_⟩
        have hrest := hobeys a trivial
        rw [hnext hwaits a] at hrest
        exact (ih a).mp hrest
      · rintro ⟨hwaits, hwithin⟩
        refine ⟨?_, fun a _ => ?_⟩
        · rintro _ ⟨⟩
          exact ⟨Nat.succ_pos k, hwaits⟩
        · rw [hnext hwaits a]
          exact (ih a).mpr (hwithin a)

theorem Program.Unlocked.obeys_stepLimit {p : Program α} (h : p.Unlocked) :
    p.Obeys (stepLimit n) (fun _ left _ => left = none) owed none := by
  refine h.obeys (fun op hop => ⟨nofun, fun a => ⟨Task.owe_unlocked hop owed a, ?_⟩⟩) fun _ => rfl
  simp only [stepLimit, Op.not_waits_of_unlocked hop, Bool.false_eq_true, if_false, Option.map_none]

structure KeepsLimit (n i : Nat) (s : PoolState (Option Nat)) : Prop where
  acquired : ∀ slot, ⟨i, .acquire slot, ()⟩ ∈ s.past → s.phase i ≠ none
  left : ∀ k, s.phase i = some k → k ≤ n

namespace KeepsLimit

variable {i j : Nat} {s : PoolState (Option Nat)} {op : Op} {left : Option Nat}

theorem stop (h : KeepsLimit n i s) (j : Nat) : KeepsLimit n i (s.stop j (some 0)) where
  acquired slot hmem := by
    change Function.update s.phase j (some 0) i ≠ none
    by_cases hj : i = j
    · rw [hj, Function.update_self]
      exact nofun
    · rw [Function.update_of_ne hj]
      exact h.acquired slot hmem
  left k hk := by
    replace hk : Function.update s.phase j (some 0) i = some k := hk
    by_cases hj : i = j
    · rw [hj, Function.update_self] at hk
      cases hk
      exact Nat.zero_le n
    · rw [Function.update_of_ne hj] at hk
      exact h.left k hk

theorem step (h : KeepsLimit n i s) (j : Nat) (op : Op) (owed : List Op)
    (hwaits : s.phase j ≠ none ∨ op.waits = true → left ≠ none)
    (hleft : (∀ k, s.phase j = some k → k ≤ n) → ∀ k, left = some k → k ≤ n) :
    KeepsLimit n i (s.step j op owed left) where
  acquired slot hmem := by
    simp only [PoolState.step, List.mem_append, List.mem_singleton] at hmem ⊢
    by_cases hj : i = j
    · subst hj
      rw [Function.update_self]
      rcases hmem with hpast | hlast
      · exact hwaits (.inl (h.acquired slot hpast))
      · cases hlast
        exact hwaits (.inr rfl)
    · rw [Function.update_of_ne hj]
      rcases hmem with hpast | hlast
      · exact h.acquired slot hpast
      · exact absurd (congrArg Event.task hlast) hj
  left k hk := by
    simp only [PoolState.step] at hk
    by_cases hj : i = j
    · subst hj
      rw [Function.update_self] at hk
      exact hleft h.left k hk
    · rw [Function.update_of_ne hj] at hk
      exact h.left k hk

end KeepsLimit

theorem upholds_keepsLimit (i : Nat) : Upholds (fun _ => stepLimit n) (KeepsLimit n i) where
  step := by
    rintro s j op owed h - - -
    refine ⟨trivial, h.step j op _ (fun hor => ?_) fun hleft k hk => ?_⟩
    · simp only [stepLimit]
      split
      · exact nofun
      · next hwaits =>
        have hsome := hor.resolve_right hwaits
        simpa using hsome
    · simp only [stepLimit] at hk
      split at hk
      · cases hk
        exact Nat.le_refl n
      · obtain ⟨k', hk', rfl⟩ := Option.map_eq_some_iff.mp hk
        exact Nat.le_trans (Nat.sub_le k' 1) (hleft k' hk')
  due := by
    rintro s j op owed h - - -
    refine h.step j op owed (fun _ => nofun) fun _ k hk => ?_
    cases hk
    exact Nat.zero_le n
  stop h := h.stop _
  clock h := ⟨h.acquired, h.left⟩

theorem TaskPool.endsWithin_of_acquired {c : TaskPool α}
    (hc : c.Obeys (fun _ => stepLimit n) (fun _ _ _ _ => True) fun _ => none) {ms : List Move}
    {i : Nat} {slot : Slot} (h : ⟨i, .acquire slot, ()⟩ ∈ c.events ms) {p : Program α}
    (ht : (c.after ms).tasks[i]? = some (.running p owed)) : p.EndsWithin n := by
  have hstart : KeepsLimit n i ⟨c.owes, c.world, fun _ => none, []⟩ := ⟨nofun, nofun⟩
  obtain ⟨left, hobeys, hlimit⟩ := hc.after (upholds_keepsLimit i) hstart ms
  obtain ⟨k, hk⟩ := Option.ne_none_iff_exists'.mp (hlimit.acquired slot h)
  have hp : p.Obeys (stepLimit n) (fun _ _ _ => True) owed (left i) := (hobeys i _ ht).1
  rw [show left i = some k from hk] at hp
  exact (Program.obeys_stepLimit.mp hp).mono (hlimit.left k hk)

end

/-! ### Callers of a client -/

namespace TokenStore

structure EndsWithinThree (store : TokenStore) : Prop where
  load : ∀ key, (store.load key).EndsWithin 3
  save : ∀ key tokens credentials expiresAt,
    (store.save key tokens credentials expiresAt).EndsWithin 3

theorem memory_endsWithinThree : memory.EndsWithinThree where
  load _ :=
    (Program.endsWithin_perform rfl).bind (k := 2) fun answer =>
      Program.takesAtMost_ofExcept answer 2
  save _ _ _ _ := (Program.endsWithin_perform rfl).mono (by decide)

theorem TakesAtMostThree.endsWithinThree {store : TokenStore} (h : store.TakesAtMostThree) :
    store.EndsWithinThree where
  load key :=
    (h.load key).imp fun _ hop => Op.not_waits_of_unlocked hop.onDocuments.ofStore.unlocked
  save key tokens credentials expiresAt := (h.save key tokens credentials expiresAt).imp
    fun _ hop => Op.not_waits_of_unlocked hop.onDocuments.ofStore.unlocked

end TokenStore

theorem StoreKind.storeOnly (b : StoreKind) : b.store.StoreOnly := by
  cases b with
  | memory => exact TokenStore.memory_storeOnly
  | documents => exact TokenStore.documents_takesAtMostThree.onDocuments.storeOnly
  | sealedDocuments ck =>
    exact (TokenStore.sealedDocuments_takesAtMostThree ck).onDocuments.storeOnly

theorem StoreKind.endsWithinThree (b : StoreKind) : b.store.EndsWithinThree := by
  cases b with
  | memory => exact TokenStore.memory_endsWithinThree
  | documents => exact TokenStore.documents_takesAtMostThree.endsWithinThree
  | sealedDocuments ck => exact (TokenStore.sealedDocuments_takesAtMostThree ck).endsWithinThree

namespace Client

variable {client : Client}

theorem usable_endsWithin (key token : String) : (usable key token).EndsWithin 0 := by
  unfold usable
  split <;> exact trivial

section

variable (hends : ∀ store ∈ client.store, store.EndsWithinThree)

include hends

theorem loadEntry_endsWithin (key : String) : (client.loadEntry key).EndsWithin 3 := by
  unfold loadEntry
  split
  · next store hsome => exact (hends store hsome).load key
  · exact trivial

theorem persist_endsWithin (grant : GrantKind) (key : String) (tokens : Tokens)
    (credentials : Option Credentials) :
    (client.persist grant key tokens credentials).EndsWithin 5 := by
  refine (Program.endsWithin_perform rfl).bind (k := 4) fun now => ?_
  refine (Program.takesAtMost_ofExcept _ 0).bind (k := 4) fun expiresAt => ?_
  cases hsome : client.store with
  | none => exact trivial
  | some store =>
    refine ((hends store hsome).save key tokens credentials expiresAt).attempt.bind (k := 1) ?_
    intro r
    cases r with
    | ok u => exact trivial
    | error e =>
      refine (Program.endsWithin_perform rfl).bind (k := 0) fun _ => ?_
      cases client.policy <;> exact trivial

theorem refreshEntry_endsWithin (key : String) (entry : StoredEntry) :
    (client.refreshEntry key entry).EndsWithin 7 := by
  have hrequest : ∀ form, (request .refresh form).EndsWithin 2 := by
    intro form
    refine (Program.endsWithin_perform rfl).bind (k := 1) fun answer => ?_
    refine (Program.endsWithin_perform rfl).bind (k := 0) fun _ => ?_
    exact Program.takesAtMost_ofExcept _ 0
  refine Program.TakesAtMost.bind (n := 7) (k := 0) ?_ fun _ => trivial
  exact (hrequest _).bind (k := 5) fun granted => persist_endsWithin hends .refresh key granted none

theorem refreshAgain_endsWithin (key : String) : (client.refreshAgain key).EndsWithin 11 := by
  refine (loadEntry_endsWithin hends key).bind (k := 8) fun entry => ?_
  have hdue : (client.isDue entry).EndsWithin 1 :=
    (Program.endsWithin_perform rfl).bind (k := 0) fun _ => trivial
  refine hdue.bind (k := 7) fun due => ?_
  split
  · exact (refreshEntry_endsWithin hends key entry).bind (k := 0) fun _ => usable_endsWithin key _
  · exact (usable_endsWithin key _).mono (Nat.zero_le 7)

theorem accessToken_stepLimit (honly : ∀ store ∈ client.store, store.StoreOnly)
    (hmode : client.mode = .singleFlight) (key : String) :
    (client.accessToken key).Obeys (stepLimit 14) (fun _ _ _ => True) [] none := by
  have hunder : ∀ owed, (withSlot key (client.refreshAgain key)).Obeys (stepLimit 14)
      (fun _ _ _ => True) owed none := by
    refine fun owed => ⟨nofun, fun slot _ => ⟨nofun, fun _ _ => Program.obeys_stepLimit.mpr ?_⟩⟩
    refine (refreshAgain_endsWithin hends key).attempt.bind (k := 3) fun result => ?_
    refine (Program.endsWithin_perform rfl).bind (k := 2) fun _ => ?_
    refine (Program.endsWithin_perform rfl).bind (k := 1) fun _ => ?_
    refine (Program.endsWithin_perform rfl).bind (k := 0) fun _ => ?_
    exact Program.takesAtMost_ofExcept result 0
  refine (storeOnly_loadEntry honly key).unlocked.obeys_stepLimit.bind ?_ fun _ _ _ _ => trivial
  rintro owed _ entry rfl
  have hdue : (client.isDue entry).Unlocked :=
    Program.allSteps_bind (Program.allSteps_perform rfl) fun _ => trivial
  refine hdue.obeys_stepLimit.bind ?_ fun _ _ _ _ => trivial
  rintro owed _ due rfl
  rw [hmode]
  split
  · exact hunder owed
  · unfold usable
    split <;> exact trivial

theorem result_of_acquired (honly : ∀ store ∈ client.store, store.StoreOnly)
    (hmode : client.mode = .singleFlight) {calls : List ClientTask} {w : World}
    {before ms : List Move} {i : Nat} {slot : Slot}
    (h : ⟨i, .acquire slot, ()⟩ ∈ (client.pool calls w).events before) {p : Program String}
    {owed : List Op} (ht : ((client.pool calls w).after before).tasks[i]? = some (.running p owed))
    (hcancel : .cancel i ∉ ms) (hturns : (List.replicate 14 (Move.run i)).Sublist ms) :
    ∃ p' owed' r, (((client.pool calls w).after before).after ms).tasks[i]? =
      some (.running p' owed') ∧ (Task.running p' owed').result? = some r := by
  have hstart : (client.pool calls w).Obeys (fun _ => stepLimit 14) (fun _ _ _ _ => True)
      fun _ => none := by
    refine obeys_pool fun i v hv => ?_
    cases v with
    | accessToken key => exact accessToken_stepLimit hends honly hmode key
    | login username password credentials =>
      have hlogin := unlocked_login honly username password credentials
      exact hlogin.obeys_stepLimit.mono fun _ _ _ _ => trivial
  exact TaskPool.result_of_turns ht (TaskPool.endsWithin_of_acquired hstart h ht) hcancel hturns

end
end Client
end TokenKeeper
