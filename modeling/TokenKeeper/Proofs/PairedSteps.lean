import Mathlib.Data.List.Forall2
import TokenKeeper.Proofs.Client.SingleFlight
import TokenKeeper.Proofs.RestrictedLocks
import TokenKeeper.Proofs.Store.Cells

/-!
# Programs that differ in their locks only

A task for one key takes steps for this key, and steps with locks that it has checked out for it.
Which numbers these locks have makes no difference to the rest. So two tasks of the same build take
the same steps, wherever they run, as long as their locks are paired and the steps for the key
answer them alike.
-/
namespace TokenKeeper

variable {α β : Type} {key : String} {R R' : Nat → Nat → Prop}

/-- Two programs for a key that take the same steps with paired locks. More locks may be paired by
the time that one is checked out. -/
inductive Program.SameSteps (key : String) : (Nat → Nat → Prop) → Program α → Program α → Prop
  | done {R : Nat → Nat → Prop} (a : α) : SameSteps key R (.done a) (.done a)
  | fail {R : Nat → Nat → Prop} (e : Failure) : SameSteps key R (.fail e) (.fail e)
  | step {R : Nat → Nat → Prop} {op : Op} {next next' : op.Answer → Program α}
    (hop : op.About key) (hnext : ∀ a, SameSteps key R (next a) (next' a)) :
    SameSteps key R (.step op next) (.step op next')
  | checkout {R : Nat → Nat → Prop} {next next' : Slot → Program α}
    (hnext : ∀ R' : Nat → Nat → Prop, (∀ a b, R a b → R' a b) → ∀ lock lock', R' lock lock' →
      SameSteps key R' (next ⟨key, lock⟩) (next' ⟨key, lock'⟩)) :
    SameSteps key R (.step (.checkout key) next) (.step (.checkout key) next')
  | lock {R : Nat → Nat → Prop} {lock lock' : Nat} (k : LockOp)
    {next : (k.op ⟨key, lock⟩).Answer → Program α}
    {next' : (k.op ⟨key, lock'⟩).Answer → Program α} (h : R lock lock')
    (hnext : ∀ a a', SameSteps key R (next a) (next' a')) :
    SameSteps key R (.step (k.op ⟨key, lock⟩) next) (.step (k.op ⟨key, lock'⟩) next')

namespace Program

def IsAbout (key : String) (p : Program α) : Prop := p.AllSteps (Op.About key) fun _ _ => True

namespace SameSteps

variable {p q : Program α}

theorem mono (h : p.SameSteps key R q) (hR : ∀ a b, R a b → R' a b) : p.SameSteps key R' q := by
  induction h generalizing R' with
  | done a => exact .done a
  | fail e => exact .fail e
  | step hop _ ih => exact .step hop fun a => ih a hR
  | checkout hnext _ =>
    exact .checkout fun R'' hR' lock lock' h =>
      hnext R'' (fun a b hab => hR' a b (hR a b hab)) lock lock' h
  | lock k h _ ih => exact .lock k (hR _ _ h) fun a a' => ih a a' hR

theorem bind {f g : α → Program β} (h : p.SameSteps key R q)
    (hf : ∀ R' : Nat → Nat → Prop, (∀ a b, R a b → R' a b) → ∀ a, (f a).SameSteps key R' (g a)) :
    (p.bind f).SameSteps key R (q.bind g) := by
  induction h with
  | done a => exact hf _ (fun _ _ h => h) a
  | fail e => exact .fail e
  | step hop _ ih => exact .step hop fun a => ih a hf
  | checkout _ ih =>
    refine .checkout fun R' hR lock lock' h => ih R' hR lock lock' h fun R'' hR' => ?_
    exact hf R'' fun a b hab => hR' a b (hR a b hab)
  | lock k h _ ih => exact .lock k h fun a a' => ih a a' hf

theorem attempt (h : p.SameSteps key R q) : p.attempt.SameSteps key R q.attempt := by
  induction h with
  | done a => exact .done _
  | fail e => exact .done _
  | step hop _ ih => exact .step hop ih
  | checkout _ ih => exact .checkout ih
  | lock k h _ ih => exact .lock k h ih

end SameSteps

theorem IsAbout.sameSteps {p : Program α} (h : p.IsAbout key) : p.SameSteps key R p := by
  induction p with
  | done a => exact .done a
  | fail e => exact .fail e
  | step op next ih => exact .step h.1 fun a => ih a (h.2 a trivial)

end Program

theorem Client.sameSteps_withSlot {body : Program α} (h : body.IsAbout key) :
    (withSlot key body).SameSteps key R (withSlot key body) := by
  refine .checkout fun R' _ lock lock' hlock => ?_
  refine .lock .acquire hlock fun _ _ => ?_
  change Program.SameSteps key R' (body.attempt.bind _) (body.attempt.bind _)
  refine Program.SameSteps.bind h.sameSteps.attempt fun R'' hR result => ?_
  refine .lock .release (hR _ _ hlock) fun _ _ => ?_
  refine .lock .retire (hR _ _ hlock) fun _ _ => ?_
  refine .lock .forget (hR _ _ hlock) fun _ _ => ?_
  cases result with
  | ok a => exact .done a
  | error e => exact .fail e

/-! ### Tasks and what they do -/

def Op.Paired (key : String) (R : Nat → Nat → Prop) (op op' : Op) : Prop :=
  ∃ (k : LockOp) (lock lock' : Nat), R lock lock' ∧ op = k.op ⟨key, lock⟩ ∧
    op' = k.op ⟨key, lock'⟩

inductive Task.SameSteps (key : String) (R : Nat → Nat → Prop) : Task α → Task α → Prop
  | running {p q : Program α} {owed owed' : List Op} (h : p.SameSteps key R q)
    (howed : List.Forall₂ (Op.Paired key R) owed owed') :
    SameSteps key R (.running p owed) (.running q owed')
  | leaving {owed owed' : List Op} (howed : List.Forall₂ (Op.Paired key R) owed owed') :
    SameSteps key R (.leaving owed) (.leaving owed')

inductive Event.SameSteps (key : String) (R : Nat → Nat → Prop) : Event → Event → Prop
  | about (i : Nat) {op : Op} (hop : op.About key) (a : op.Answer) :
    SameSteps key R ⟨i, op, a⟩ ⟨i, op, a⟩
  | checkout (i : Nat) {lock lock' : Nat} (h : R lock lock') :
    SameSteps key R ⟨i, .checkout key, ⟨key, lock⟩⟩ ⟨i, .checkout key, ⟨key, lock'⟩⟩
  | lock (i : Nat) {lock lock' : Nat} (k : LockOp) (h : R lock lock')
    (a : (k.op ⟨key, lock⟩).Answer) (a' : (k.op ⟨key, lock'⟩).Answer) :
    SameSteps key R ⟨i, k.op ⟨key, lock⟩, a⟩ ⟨i, k.op ⟨key, lock'⟩, a'⟩

def Event.nonce? : Event → Option Nonce
  | ⟨_, .nonce, n⟩ => some n
  | _ => none

theorem Op.Paired.mono {op op' : Op} (h : op.Paired key R op') (hR : ∀ a b, R a b → R' a b) :
    op.Paired key R' op' := by
  obtain ⟨k, lock, lock', hlock, rfl, rfl⟩ := h
  exact ⟨k, lock, lock', hR _ _ hlock, rfl, rfl⟩

theorem Event.SameSteps.mono {e e' : Event} (h : e.SameSteps key R e')
    (hR : ∀ a b, R a b → R' a b) : e.SameSteps key R' e' := by
  cases h with
  | about i hop a => exact .about i hop a
  | checkout i h => exact .checkout i (hR _ _ h)
  | lock i k h a a' => exact .lock i k (hR _ _ h) a a'

theorem Op.About.unlocked {op : Op} (h : op.About key) : op.isLocking = false := by
  cases op <;> first | contradiction | rfl

theorem Task.owe_checkout {owed owed' : List Op}
    (howed : List.Forall₂ (Op.Paired key R) owed owed') (hR : ∀ a b, R a b → R' a b)
    (lock lock' : Nat) (h : R' lock lock') :
    List.Forall₂ (Op.Paired key R') (Task.owe owed (.checkout key) ⟨key, lock⟩)
      (Task.owe owed' (.checkout key) ⟨key, lock'⟩) :=
  .cons ⟨.retire, lock, lock', h, rfl, rfl⟩
    (.cons ⟨.forget, lock, lock', h, rfl, rfl⟩ (howed.imp fun _ _ ho => ho.mono hR))

namespace LockOp

variable (k : LockOp) (s : Slot)

theorem isLocking : (k.op s).isLocking = true := by
  cases k <;> rfl

theorem perform (w : World) :
    (World.perform (k.op s) w).2 = { w with flight := k.act s w.flight } := by
  cases k <;> rfl

theorem owe {owed owed' : List Op} {lock lock' : Nat} (h : R lock lock')
    (howed : List.Forall₂ (Op.Paired key R) owed owed') (a : (k.op ⟨key, lock⟩).Answer)
    (a' : (k.op ⟨key, lock'⟩).Answer) :
    List.Forall₂ (Op.Paired key R) (Task.owe owed (k.op ⟨key, lock⟩) a)
      (Task.owe owed' (k.op ⟨key, lock'⟩) a') := by
  have hdrop : List.Forall₂ (Op.Paired key R) (owed.drop 1) (owed'.drop 1) := by
    cases howed with
    | nil => exact .nil
    | cons _ hrest => exact hrest
  cases k with
  | acquire => exact .cons ⟨.release, lock, lock', h, rfl, rfl⟩ howed
  | _ => exact hdrop

end LockOp

namespace Task.SameSteps

variable {t t' : Task α}

theorem mono (h : t.SameSteps key R t') (hR : ∀ a b, R a b → R' a b) : t.SameSteps key R' t' := by
  cases h with
  | running h howed => exact .running (h.mono hR) (howed.imp fun _ _ ho => ho.mono hR)
  | leaving howed => exact .leaving (howed.imp fun _ _ ho => ho.mono hR)

theorem cancel (h : t.SameSteps key R t') : t.cancel.SameSteps key R t'.cancel := by
  cases h with
  | running h howed => exact .leaving howed
  | leaving howed => exact .leaving howed

theorem result? (h : t.SameSteps key R t') : t'.result? = t.result? := by
  cases h with
  | running h howed =>
    cases h <;> rfl
  | leaving howed => rfl

end Task.SameSteps

/-! ### Steps in two worlds -/

section

variable {mine : String → Prop} {locks : List Nat} {w v : World}

/-- Two worlds, of which the second serves some keys alone, with the same of one of them. -/
structure World.PairedWorlds (mine : String → Prop) (locks : List Nat) (key : String)
    (w v : World) : Prop where
  ready : w.Ready
  ready' : v.Ready
  slice : w.slice key = v.slice key
  flights : w.flight.RestrictsTo mine locks v.flight

namespace World.PairedWorlds

theorem about (h : PairedWorlds mine locks key w v) {op : Op} (hop : op.About key)
    (hnonce : op = .nonce → w.nonces w.drawn = v.nonces v.drawn) :
    (perform op w).1 = (perform op v).1 ∧
      PairedWorlds mine locks key (perform op w).2 (perform op v).2 := by
  obtain ⟨hanswer, hslice⟩ := perform_slice h.ready h.ready' h.slice hop hnonce
  refine ⟨hanswer, (perform_keepsOthers h.ready (.inl hop)).ready,
    (perform_keepsOthers h.ready' (.inl hop)).ready, hslice, ?_⟩
  rw [flight_perform hop.unlocked, flight_perform hop.unlocked]
  exact h.flights

theorem withFlight (h : PairedWorlds mine locks key w v) {locks' : List Nat} {f f' : Flight}
    (hf : f.RestrictsTo mine locks' f') :
    PairedWorlds mine locks' key { w with flight := f } { v with flight := f' } :=
  ⟨⟨h.ready.noFault, h.ready.medium⟩, ⟨h.ready'.noFault, h.ready'.medium⟩, h.slice, hf⟩

theorem lock (h : PairedWorlds mine locks key w v) (hkey : mine key) (k : LockOp) {lock lock' : Nat}
    (hlock : Numbered locks lock lock') :
    enabled (k.op ⟨key, lock⟩) w = enabled (k.op ⟨key, lock'⟩) v ∧
      PairedWorlds mine locks key (perform (k.op ⟨key, lock⟩) w).2
        (perform (k.op ⟨key, lock'⟩) v).2 := by
  refine ⟨?_, ?_⟩
  · cases k with
    | acquire => exact h.flights.isFree hlock
    | _ => rfl
  · rw [k.perform, k.perform]
    exact h.withFlight (h.flights.act hkey hlock k)

end World.PairedWorlds

theorem World.drawn_perform {op : Op} (h : op ≠ .nonce) (w : World) :
    (perform op w).2.drawn = w.drawn := by
  have hchanged : ∀ {file table v}, w.Changed file table v → v.drawn = w.drawn := by
    rintro _ _ _ (_ | _) <;> rfl
  cases op with
  | upsert k fields =>
    exact of_settle (P := (·.drawn = w.drawn)) rfl fun _ h => hchanged (changed_of_upsert h)
  | delete k =>
    exact of_settle (P := (·.drawn = w.drawn)) rfl fun _ h => hchanged (changed_of_delete h)
  | deleteIf k field expected =>
    exact of_settleWith (P := (·.drawn = w.drawn)) rfl fun _ _ h => hchanged (changed_of_deleteIf h)
  | nonce => exact absurd rfl h
  | _ => rfl

theorem Event.SameSteps.nonce? {e e' : Event} (h : e.SameSteps key R e') :
    e'.nonce? = e.nonce? := by
  cases h with
  | about i hop a => rfl
  | checkout i h => rfl
  | lock i k h a a' => cases k <;> rfl

theorem World.drawn_perform_event (i : Nat) (op : Op) (w : World) :
    (perform op w).2.drawn =
      w.drawn + (Event.nonce? ⟨i, op, (perform op w).1⟩).toList.length := by
  by_cases h : op = .nonce
  · subst h
    rfl
  · have hnone : Event.nonce? ⟨i, op, (perform op w).1⟩ = none := by
      cases op <;> first | rfl | exact absurd rfl h
    rw [drawn_perform h, hnone]
    rfl

structure TaskPool.MovedTogether (mine : String → Prop) (locks : List Nat) (key : String) (m : Move)
    (i : Nat) (c c' : TaskPool α) (locks' : List Nat) (t t' : Task α) (w v : World) : Prop where
  grown : locks <+: locks'
  move : c.move m = ⟨c.tasks.set i t, w⟩
  move' : c'.move m = ⟨c'.tasks.set i t', v⟩
  task : t.SameSteps key (Numbered locks') t'
  worlds : World.PairedWorlds mine locks' key w v
  event : Option.Rel (Event.SameSteps key (Numbered locks')) (c.event? m) (c'.event? m)
  keepsOthers : c.world.KeepsOthers key w
  keepsOthers' : c'.world.KeepsOthers key v
  drawn : v.drawn = c'.world.drawn + ((c.event? m).bind Event.nonce?).toList.length
  foreign : ∀ lock, c.world.flight.Foreign locks lock → w.flight.Foreign locks' lock

theorem World.KeepsOthers.refl (hw : w.Ready) (key : String) : w.KeepsOthers key w :=
  (hw.edited key).keepsOthers

theorem TaskPool.MovedTogether.idle {c c' : TaskPool α} {m : Move} {i : Nat} {t t' : Task α}
    (hc : c.tasks[i]? = some t) (hc' : c'.tasks[i]? = some t')
    (ht : t.SameSteps key (Numbered locks) t')
    (hw : World.PairedWorlds mine locks key c.world c'.world) (hm : c.move m = c)
    (hm' : c'.move m = c') (he : c.event? m = none) (he' : c'.event? m = none) :
    MovedTogether mine locks key m i c c' locks t t' c.world c'.world where
  grown := List.prefix_rfl
  move := by rw [hm, set_self hc]
  move' := by rw [hm', set_self hc']
  task := ht
  worlds := hw
  event := by rw [he, he']; exact .none
  keepsOthers := .refl hw.ready key
  keepsOthers' := .refl hw.ready' key
  drawn := by rw [he]; rfl
  foreign _ h := h

theorem TaskPool.move_absent {c : TaskPool α} {i : Nat} {m : Move} (hm : m = .run i ∨ m = .cancel i)
    (hc : c.tasks[i]? = none) (t : Task α) :
    c.move m = ⟨c.tasks.set i t, c.world⟩ ∧ c.event? m = none := by
  have hset : c.tasks.set i t = c.tasks :=
    List.set_eq_of_length_le (List.getElem?_eq_none_iff.mp hc)
  rcases hm with rfl | rfl
  · simp only [move, change, event?, hc, hset, and_self]
  · simp only [move, change, event?, hc, hset, and_self]

theorem TaskPool.move_run_over {c : TaskPool α} {i : Nat} {t : Task α} (ht : c.tasks[i]? = some t)
    (hover : t.next? = none) : c.move (.run i) = c ∧ c.event? (.run i) = none := by
  have hsame := set_self ht
  cases t with
  | running p owed =>
    cases p with
    | step op next => cases hover
    | _ => simp only [move, change, event?, ht, Task.advance, hsame, and_self]
  | leaving owed =>
    cases owed with
    | nil => simp only [move, change, event?, ht, Task.advance, hsame, and_self]
    | cons op owed => cases hover

theorem TaskPool.move_run_blocked {c : TaskPool α} {i : Nat} {op : Op}
    {next : op.Answer → Program α} {owed : List Op}
    (ht : c.tasks[i]? = some (.running (.step op next) owed))
    (he : World.enabled op c.world = false) : c.move (.run i) = c ∧ c.event? (.run i) = none := by
  have hsame := set_self ht
  simp only [move, change, event?, ht, Task.advance, he, Bool.false_eq_true, if_false, hsame,
    and_self]

theorem TaskPool.move_run_taken {c : TaskPool α} {i : Nat} {op : Op} {next : op.Answer → Program α}
    {owed : List Op} (ht : c.tasks[i]? = some (.running (.step op next) owed))
    (he : World.enabled op c.world = true) :
    c.move (.run i) = ⟨c.tasks.set i (.running (next (World.perform op c.world).1)
        (Task.owe owed op (World.perform op c.world).1)), (World.perform op c.world).2⟩ ∧
      c.event? (.run i) = some ⟨i, op, (World.perform op c.world).1⟩ :=
  ⟨move_run_step ht he rfl, event?_run ht he⟩

theorem TaskPool.move_run_due {c : TaskPool α} {i : Nat} {op : Op} {owed : List Op}
    (ht : c.tasks[i]? = some (.leaving (op :: owed))) :
    c.move (.run i) = ⟨c.tasks.set i (.leaving owed), (World.perform op c.world).2⟩ ∧
      c.event? (.run i) = some ⟨i, op, (World.perform op c.world).1⟩ := by
  simp only [move, change, event?, ht, Task.advance, and_self]

namespace TaskPool.MovedTogether

variable {c c' : TaskPool α} {i : Nat} {t t' : Task α}

theorem absent (hw : World.PairedWorlds mine locks key c.world c'.world) {m : Move}
    (hm : m = .run i ∨ m = .cancel i) (hc : c.tasks[i]? = none) (hc' : c'.tasks[i]? = none) :
    MovedTogether mine locks key m i c c' locks (.leaving []) (.leaving []) c.world c'.world where
  grown := List.prefix_rfl
  move := (move_absent hm hc _).1
  move' := (move_absent hm hc' _).1
  task := .leaving .nil
  worlds := hw
  event := by
    rw [(move_absent hm hc (.leaving [])).2, (move_absent hm hc' (.leaving [])).2]
    exact .none
  keepsOthers := .refl hw.ready key
  keepsOthers' := .refl hw.ready' key
  drawn := by rw [(move_absent hm hc (.leaving [])).2]; rfl
  foreign _ h := h

theorem of_step {m : Move} {op op' : Op} {locks' : List Nat} (hgrown : locks <+: locks')
    (hready : c.world.Ready) (hready' : c'.world.Ready)
    (hm : c.move m = ⟨c.tasks.set i t, (World.perform op c.world).2⟩ ∧
      c.event? m = some ⟨i, op, (World.perform op c.world).1⟩)
    (hm' : c'.move m = ⟨c'.tasks.set i t', (World.perform op' c'.world).2⟩ ∧
      c'.event? m = some ⟨i, op', (World.perform op' c'.world).1⟩)
    (hop : op.About key ∨ op.isLocking = true) (hop' : op'.About key ∨ op'.isLocking = true)
    (hevent : Event.SameSteps key (Numbered locks') ⟨i, op, (World.perform op c.world).1⟩
      ⟨i, op', (World.perform op' c'.world).1⟩) (ht : t.SameSteps key (Numbered locks') t')
    (hw : World.PairedWorlds mine locks' key (World.perform op c.world).2
      (World.perform op' c'.world).2)
    (hforeign : ∀ lock, c.world.flight.Foreign locks lock →
      (World.perform op c.world).2.flight.Foreign locks' lock) :
    MovedTogether mine locks key m i c c' locks' t t' (World.perform op c.world).2
      (World.perform op' c'.world).2 where
  grown := hgrown
  move := hm.1
  move' := hm'.1
  task := ht
  worlds := hw
  event := by rw [hm.2, hm'.2]; exact .some hevent
  keepsOthers := World.perform_keepsOthers hready hop
  keepsOthers' := World.perform_keepsOthers hready' hop'
  drawn := by
    rw [World.drawn_perform_event i, hevent.nonce?, hm.2, Option.bind_some]
  foreign := hforeign

variable (hw : World.PairedWorlds mine locks key c.world c'.world)

include hw

theorem about {op : Op} {next next' : op.Answer → Program α} {owed owed' : List Op}
    (hc : c.tasks[i]? = some (.running (.step op next) owed))
    (hc' : c'.tasks[i]? = some (.running (.step op next') owed')) (hop : op.About key)
    (hnext : ∀ a, (next a).SameSteps key (Numbered locks) (next' a))
    (howed : List.Forall₂ (Op.Paired key (Numbered locks)) owed owed')
    (hnonce : ∀ n ∈ (c.event? (.run i)).bind Event.nonce?, c'.world.nonces c'.world.drawn = n) :
    ∃ u u' w v, MovedTogether mine locks key (.run i) i c c' locks u u' w v := by
  have henabled : ∀ w, World.enabled op w = true := fun w => by
    cases op <;> first | contradiction | rfl
  have htaken := move_run_taken hc (henabled c.world)
  have hdraws : op = .nonce →
      c.world.nonces c.world.drawn = c'.world.nonces c'.world.drawn := by
    rintro rfl
    rw [htaken.2] at hnonce
    exact (hnonce _ rfl).symm
  obtain ⟨hanswer, hpaired⟩ := hw.about hop hdraws
  refine ⟨_, _, _, _, of_step List.prefix_rfl hw.ready hw.ready' htaken
    (move_run_taken hc' (henabled c'.world)) (.inl hop) (.inl hop) ?_ ?_ hpaired
    fun lock hlock => ?_⟩
  · rw [← hanswer]
    exact .about i hop _
  · rw [Task.owe_unlocked hop.unlocked, Task.owe_unlocked hop.unlocked, ← hanswer]
    exact .running (hnext _) howed
  · rw [World.flight_perform hop.unlocked]
    exact hlock

theorem checkout (hkey : mine key) {next next' : Slot → Program α} {owed owed' : List Op}
    (hc : c.tasks[i]? = some (.running (.step (.checkout key) next) owed))
    (hc' : c'.tasks[i]? = some (.running (.step (.checkout key) next') owed'))
    (hnext : ∀ R' : Nat → Nat → Prop, (∀ a b, Numbered locks a b → R' a b) →
      ∀ lock lock', R' lock lock' → (next ⟨key, lock⟩).SameSteps key R' (next' ⟨key, lock'⟩))
    (howed : List.Forall₂ (Op.Paired key (Numbered locks)) owed owed') :
    ∃ locks' u u' w v, MovedTogether mine locks key (.run i) i c c' locks' u u' w v := by
  obtain ⟨locks', lock, lock', hgrown, hpair, hslot, hslot', hforeign, hflights⟩ :=
    hw.flights.checkout hkey
  have hmore : ∀ a b, Numbered locks a b → Numbered locks' a b := fun _ _ h => h.mono hgrown
  have hanswer : (World.perform (.checkout key) c.world).1 = ⟨key, lock⟩ := hslot
  have hanswer' : (World.perform (.checkout key) c'.world).1 = ⟨key, lock'⟩ := hslot'
  refine ⟨locks', _, _, _, _, of_step hgrown hw.ready hw.ready' (move_run_taken hc rfl)
    (move_run_taken hc' rfl) (.inr rfl) (.inr rfl) ?_ ?_ (hw.withFlight hflights) hforeign⟩
  · rw [hanswer, hanswer']
    exact .checkout i hpair
  · rw [hanswer, hanswer']
    exact .running (hnext _ hmore lock lock' hpair) (Task.owe_checkout howed hmore lock lock' hpair)

theorem lock (hkey : mine key) {m : Move} (k : LockOp) {lock lock' : Nat}
    (hlock : Numbered locks lock lock')
    (hm : c.move m = ⟨c.tasks.set i t, (World.perform (k.op ⟨key, lock⟩) c.world).2⟩ ∧
      c.event? m = some ⟨i, k.op ⟨key, lock⟩, (World.perform (k.op ⟨key, lock⟩) c.world).1⟩)
    (hm' : c'.move m = ⟨c'.tasks.set i t', (World.perform (k.op ⟨key, lock'⟩) c'.world).2⟩ ∧
      c'.event? m = some ⟨i, k.op ⟨key, lock'⟩, (World.perform (k.op ⟨key, lock'⟩) c'.world).1⟩)
    (ht : t.SameSteps key (Numbered locks) t') :
    ∃ u u' w v, MovedTogether mine locks key m i c c' locks u u' w v := by
  refine ⟨_, _, _, _, of_step List.prefix_rfl hw.ready hw.ready' hm hm' (.inr (k.isLocking _))
    (.inr (k.isLocking _)) (.lock i k hlock _ _) ht (hw.lock hkey k hlock).2 fun other hother => ?_⟩
  rw [k.perform, Flight.Foreign, k.next_act]
  exact hother

theorem run (hkey : mine key) (hc : c.tasks[i]? = some t) (hc' : c'.tasks[i]? = some t')
    (ht : t.SameSteps key (Numbered locks) t')
    (hnonce : ∀ n ∈ (c.event? (.run i)).bind Event.nonce?, c'.world.nonces c'.world.drawn = n) :
    ∃ locks' u u' w v, MovedTogether mine locks key (.run i) i c c' locks' u u' w v := by
  have hover : t.next? = none → t'.next? = none →
      ∃ locks' u u' w v, MovedTogether mine locks key (.run i) i c c' locks' u u' w v := by
    intro hnone hnone'
    obtain ⟨hm, he⟩ := move_run_over hc hnone
    obtain ⟨hm', he'⟩ := move_run_over hc' hnone'
    exact ⟨_, _, _, _, _, .idle hc hc' ht hw hm hm' he he'⟩
  cases ht with
  | running hp howed =>
    cases hp with
    | done a => exact hover rfl rfl
    | fail e => exact hover rfl rfl
    | step hop hnext => exact ⟨_, about hw hc hc' hop hnext howed hnonce⟩
    | checkout hnext => exact checkout hw hkey hc hc' hnext howed
    | @lock R lock lock' k next next' hlock hnext =>
      have henabled := (hw.lock hkey k hlock).1
      cases he : World.enabled (k.op ⟨key, lock⟩) c.world with
      | true =>
        refine ⟨_, MovedTogether.lock hw hkey k hlock (move_run_taken hc he)
          (move_run_taken hc' (henabled.symm.trans he)) ?_⟩
        exact .running (hnext _ _) (k.owe hlock howed _ _)
      | false =>
        -- Paired locks are free or taken together, so both tasks wait.
        obtain ⟨hm, hevent⟩ := move_run_blocked hc he
        obtain ⟨hm', hevent'⟩ := move_run_blocked hc' (henabled.symm.trans he)
        exact ⟨_, _, _, _, _,
          .idle hc hc' (.running (.lock k hlock hnext) howed) hw hm hm' hevent hevent'⟩
  | leaving howed =>
    cases howed with
    | nil => exact hover rfl rfl
    | cons hpaired hrest =>
      obtain ⟨k, number, number', hlock, rfl, rfl⟩ := hpaired
      exact ⟨_, MovedTogether.lock hw hkey k hlock (move_run_due hc) (move_run_due hc')
        (.leaving hrest)⟩

theorem cancel (hc : c.tasks[i]? = some t) (hc' : c'.tasks[i]? = some t')
    (ht : t.SameSteps key (Numbered locks) t') :
    MovedTogether mine locks key (.cancel i) i c c' locks t.cancel t'.cancel c.world c'.world where
  grown := List.prefix_rfl
  move := by simp only [TaskPool.move, TaskPool.change, hc]
  move' := by simp only [TaskPool.move, TaskPool.change, hc']
  task := ht.cancel
  worlds := hw
  event := .none
  keepsOthers := .refl hw.ready key
  keepsOthers' := .refl hw.ready' key
  drawn := rfl
  foreign _ h := h

end TaskPool.MovedTogether

/-! ### Tasks for other keys -/

def Task.OwnLocksOnly (key : String) (own : Nat → Prop) (t : Task α) : Prop :=
  ∃ t', t.SameSteps key (fun lock _ => own lock) t'

theorem Task.OwnLocksOnly.mono {own own' : Nat → Prop} {t : Task α} (h : t.OwnLocksOnly key own)
    (hown : ∀ lock, own lock → own' lock) : t.OwnLocksOnly key own' := by
  obtain ⟨t', ht⟩ := h
  exact ⟨t', ht.mono fun lock _ => hown lock⟩

structure TaskPool.MovedApart (mine : String → Prop) (locks : List Nat) (key : String) (m : Move)
    (i : Nat) (c : TaskPool α) (f' : Flight) (t : Task α) (w : World) : Prop where
  move : c.move m = ⟨c.tasks.set i t, w⟩
  task : t.OwnLocksOnly key (w.flight.Foreign locks)
  flights : w.flight.RestrictsTo mine locks f'
  keepsOthers : c.world.KeepsOthers key w
  foreign : ∀ lock, c.world.flight.Foreign locks lock → w.flight.Foreign locks lock

namespace TaskPool.MovedApart

variable {c : TaskPool α} {f' : Flight} {i : Nat} {t : Task α} (hready : c.world.Ready)
  (hflights : c.world.flight.RestrictsTo mine locks f')

include hready hflights

theorem absent {m : Move} (hm : m = .run i ∨ m = .cancel i) (hc : c.tasks[i]? = none) :
    MovedApart mine locks key m i c f' (.leaving []) c.world where
  move := (move_absent hm hc _).1
  task := ⟨.leaving [], .leaving .nil⟩
  flights := hflights
  keepsOthers := .refl hready key
  foreign _ h := h

theorem idle {m : Move} (hc : c.tasks[i]? = some t)
    (ht : t.OwnLocksOnly key (c.world.flight.Foreign locks)) (hm : c.move m = c) :
    MovedApart mine locks key m i c f' t c.world where
  move := by rw [hm, set_self hc]
  task := ht
  flights := hflights
  keepsOthers := .refl hready key
  foreign _ h := h

theorem lock (hkey : ¬ mine key) {m : Move} (k : LockOp) {number : Nat}
    (hlock : c.world.flight.Foreign locks number)
    (hm : c.move m = ⟨c.tasks.set i t, (World.perform (k.op ⟨key, number⟩) c.world).2⟩)
    (ht : t.OwnLocksOnly key (c.world.flight.Foreign locks)) :
    ∃ u w, MovedApart mine locks key m i c f' u w := by
  have hnext : (World.perform (k.op ⟨key, number⟩) c.world).2.flight.Foreign locks =
      c.world.flight.Foreign locks := by
    funext other
    rw [k.perform, Flight.Foreign, Flight.Foreign, k.next_act]
  refine ⟨t, _, hm, ?_, ?_, World.perform_keepsOthers hready (.inr (k.isLocking _)),
    fun other h => ?_⟩
  · rw [hnext]
    exact ht
  · rw [k.perform]
    exact hflights.act_apart hkey hlock k
  · rw [hnext]
    exact h

theorem run (hkey : ¬ mine key) (hc : c.tasks[i]? = some t)
    (ht : t.OwnLocksOnly key (c.world.flight.Foreign locks)) :
    ∃ u w, MovedApart mine locks key (.run i) i c f' u w := by
  obtain ⟨t', hstep⟩ := ht
  have hover : t.next? = none → ∃ u w, MovedApart mine locks key (.run i) i c f' u w :=
    fun hnone => ⟨_, _, idle hready hflights hc ⟨t', hstep⟩ (move_run_over hc hnone).1⟩
  cases hstep with
  | running hp howed =>
    cases hp with
    | done a => exact hover rfl
    | fail e => exact hover rfl
    | @step R op next next' hop hnext =>
      have henabled : World.enabled op c.world = true := by
        cases op <;> first | contradiction | rfl
      have hflight := World.flight_perform hop.unlocked c.world
      refine ⟨_, _, (move_run_taken hc henabled).1, ?_, ?_,
        World.perform_keepsOthers hready (.inl hop), ?_⟩
      · rw [Task.owe_unlocked hop.unlocked, hflight]
        exact ⟨_, .running (hnext _) howed⟩
      · rw [hflight]
        exact hflights
      · rw [hflight]
        exact fun _ h => h
    | checkout hnext =>
      obtain ⟨number, hslot, hnumber, hgrown, hafter⟩ := hflights.checkout_apart hkey
      have hanswer : (World.perform (.checkout key) c.world).1 = ⟨key, number⟩ := hslot
      have hmore : ∀ lock, c.world.flight.Foreign locks lock →
          (World.perform (.checkout key) c.world).2.flight.Foreign locks lock :=
        fun lock h => ⟨Nat.lt_of_lt_of_le h.1 hgrown, h.2⟩
      refine ⟨_, _, (move_run_taken hc rfl).1, ?_, hafter,
        World.perform_keepsOthers hready (.inr rfl), hmore⟩
      rw [hanswer]
      exact ⟨_, .running (hnext _ (fun lock _ => hmore lock) number number hnumber)
        (Task.owe_checkout howed (fun lock _ => hmore lock) number number hnumber)⟩
    | @lock R number number' k next next' hlock hnext =>
      cases he : World.enabled (k.op ⟨key, number⟩) c.world with
      | true =>
        refine MovedApart.lock hready hflights hkey k hlock (move_run_taken hc he).1 ?_
        exact ⟨_, .running (hnext _ (World.perform (k.op ⟨key, number'⟩) c.world).1)
          (k.owe hlock howed _ (World.perform (k.op ⟨key, number'⟩) c.world).1)⟩
      | false =>
        exact ⟨_, _, idle hready hflights hc ⟨_, .running (.lock k hlock hnext) howed⟩
          (move_run_blocked hc he).1⟩
  | leaving howed =>
    cases howed with
    | nil => exact hover rfl
    | cons hpaired hrest =>
      obtain ⟨k, number, number', hlock, rfl, rfl⟩ := hpaired
      exact MovedApart.lock hready hflights hkey k hlock (move_run_due hc).1 ⟨_, .leaving hrest⟩

theorem cancel (hc : c.tasks[i]? = some t)
    (ht : t.OwnLocksOnly key (c.world.flight.Foreign locks)) :
    MovedApart mine locks key (.cancel i) i c f' t.cancel c.world where
  move := by simp only [TaskPool.move, TaskPool.change, hc]
  task := by
    obtain ⟨t', hstep⟩ := ht
    exact ⟨_, hstep.cancel⟩
  flights := hflights
  keepsOthers := .refl hready key
  foreign _ h := h

end TaskPool.MovedApart

end

end TokenKeeper
