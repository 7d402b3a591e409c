import Mathlib.Algebra.BigOperators.Intervals
import TokenKeeper.Proofs.Events
import TokenKeeper.Proofs.Store.Steps

/-!
# The log of requests and counts

Requests to the token endpoint and counts are added to the world and never taken away. So the world
shows the log of a history, in whatever order the tasks took their steps, and what is counted in a
history is the sum over its tasks. A program leaves a log that fits its result if each of its
complete runs does, whatever answers it gets.
-/
namespace TokenKeeper

variable {α β : Type}

/-- What is logged of a step: a request with its answer, or a count. -/
inductive LogEntry
  | asked (form : Form) (answer : Exchange)
  | counted (counter : Counter)

namespace LogEntry

def form? : LogEntry → Option Form
  | asked form _ => some form
  | counted _ => none

def counter? : LogEntry → Option Counter
  | asked _ _ => none
  | counted counter => some counter

def exchange? : LogEntry → Option (Form × Exchange)
  | asked form answer => some (form, answer)
  | counted _ => none

end LogEntry

def Op.log : (op : Op) → op.Answer → List LogEntry
  | .post form, answer => [.asked form answer]
  | .count counter, _ => [.counted counter]
  | _, _ => []

def Event.log (e : Event) : List LogEntry := e.op.log e.answer

def logOf (past : List Event) : List LogEntry := past.flatMap Event.log

theorem Op.log_of_inner {op : Op} (h : op.isOuter = false) (a : op.Answer) : op.log a = [] := by
  cases op <;> first | contradiction | rfl

/-! ### The world shows the log -/

theorem World.posts_perform (op : Op) (w : World) : (World.perform op w).2.posts =
    ((op.log (World.perform op w).1).filterMap LogEntry.form?).reverse ++ w.posts := by
  cases h : op.isOuter with
  | false =>
    rw [op.log_of_inner h]
    exact (World.sameOutside_perform h w).posts
  | true => cases op <;> first | contradiction | rfl

theorem World.counted_perform (op : Op) (w : World) : (World.perform op w).2.counted =
    ((op.log (World.perform op w).1).filterMap LogEntry.counter?).reverse ++ w.counted := by
  cases h : op.isOuter with
  | false =>
    rw [op.log_of_inner h]
    exact (World.sameOutside_perform h w).counted
  | true => cases op <;> first | contradiction | rfl

namespace TaskPool

theorem shown_move (c : TaskPool α) (m : Move) :
    (c.move m).world.posts =
        ((logOf (c.event? m).toList).filterMap LogEntry.form?).reverse ++ c.world.posts ∧
      (c.move m).world.counted =
        ((logOf (c.event? m).toList).filterMap LogEntry.counter?).reverse ++ c.world.counted := by
  have hstep : ∀ (i : Nat) (op : Op),
      logOf [⟨i, op, (World.perform op c.world).1⟩] = op.log (World.perform op c.world).1 :=
    fun i op => List.append_nil _
  have hcases := c.moveCases m
  generalize c.move m = c' at hcases ⊢
  generalize c.event? m = e at hcases ⊢
  cases hcases with
  | idle => exact ⟨rfl, rfl⟩
  | step ht he =>
    rw [Option.toList_some, hstep]
    exact ⟨World.posts_perform _ _, World.counted_perform _ _⟩
  | due ht =>
    rw [Option.toList_some, hstep]
    exact ⟨World.posts_perform _ _, World.counted_perform _ _⟩
  | stop ht => exact ⟨rfl, rfl⟩
  | clock now => exact ⟨rfl, rfl⟩

theorem shown_after (c : TaskPool α) (ms : List Move) :
    (c.after ms).world.posts =
        ((logOf (c.events ms)).filterMap LogEntry.form?).reverse ++ c.world.posts ∧
      (c.after ms).world.counted =
        ((logOf (c.events ms)).filterMap LogEntry.counter?).reverse ++ c.world.counted := by
  induction ms generalizing c with
  | nil => exact ⟨rfl, rfl⟩
  | cons m ms ih =>
    obtain ⟨hposts, hcounted⟩ := c.shown_move m
    obtain ⟨hposts', hcounted'⟩ := ih (c.move m)
    have hlog : logOf (c.events (m :: ms)) =
        logOf (c.event? m).toList ++ logOf ((c.move m).events ms) := List.flatMap_append
    rw [hlog]
    simp only [List.filterMap_append, List.reverse_append, List.append_assoc]
    exact ⟨hposts'.trans (congrArg _ hposts), hcounted'.trans (congrArg _ hcounted)⟩

end TaskPool

/-! ### Each task leaves its own -/

/-- The log of one task. -/
def ownLog (i : Nat) (past : List Event) : List LogEntry := logOf (past.filter (·.task = i))

theorem ownLog_concat (i : Nat) (past : List Event) (e : Event) : ownLog i (past ++ [e]) =
    if e.task = i then ownLog i past ++ e.log else ownLog i past := by
  by_cases he : e.task = i <;> simp [ownLog, logOf, he]

theorem countP_logOf (p : LogEntry → Bool) {past : List Event} {n : Nat}
    (h : ∀ e ∈ past, e.task < n) :
    (logOf past).countP p = ∑ i ∈ Finset.range n, (ownLog i past).countP p := by
  induction past with
  | nil => simp [logOf, ownLog]
  | cons e past ih =>
    have hsplit : ∀ i, (ownLog i (e :: past)).countP p =
        (if e.task = i then e.log.countP p else 0) + (ownLog i past).countP p := by
      intro i
      by_cases he : e.task = i <;> simp [ownLog, logOf, he]
    have he : e.task ∈ Finset.range n := Finset.mem_range.mpr (h e List.mem_cons_self)
    simp only [hsplit]
    rw [Finset.sum_add_distrib, Finset.sum_ite_eq, if_pos he,
      ← ih fun e' he' => h e' (List.mem_cons_of_mem e he')]
    simp [logOf]

/-- A discipline that allows everything and keeps the log of each task, until the task is stopped.
-/
def recording : Discipline (Option (List LogEntry)) where
  allows _ _ _ := True
  expects _ _ _ := True
  next phase op a := phase.map (· ++ op.log a)
  gone := none

/-- What is kept for a task is its own log. -/
structure Recorded (s : PoolState (Option (List LogEntry))) : Prop where
  own : ∀ i log, s.phase i = some log → log = ownLog i s.past
  within : ∀ e ∈ s.past, e.task < s.owes.length

namespace Recorded

variable {s : PoolState (Option (List LogEntry))} {i : Nat}

theorem start {n : Nat} {w : World} :
    Recorded ⟨List.replicate n [], w, fun _ => some [], []⟩ where
  own i log hlog := by
    cases hlog
    rfl
  within e he := by cases he

theorem step (h : Recorded s) {op : Op} {owed new : List Op} (hi : s.owes[i]? = some owed)
    {phase : Option (List LogEntry)} (hphase : ∀ log, phase = some log →
      ∃ before, s.phase i = some before ∧
        log = before ++ op.log (World.perform op s.world).1) :
    Recorded (s.step i op new phase) := by
  refine ⟨fun j log hj => ?_, fun e he => ?_⟩
  · change Function.update s.phase i phase j = some log at hj
    change log = ownLog j (s.past ++ [⟨i, op, (World.perform op s.world).1⟩])
    rw [ownLog_concat]
    by_cases hij : i = j
    · subst hij
      rw [Function.update_self] at hj
      obtain ⟨before, hbefore, rfl⟩ := hphase log hj
      rw [if_pos rfl, h.own i before hbefore]
      rfl
    · rw [Function.update_of_ne (Ne.symm hij)] at hj
      rw [if_neg hij]
      exact h.own j log hj
  · change e ∈ s.past ++ [⟨i, op, (World.perform op s.world).1⟩] at he
    change e.task < (s.owes.set i new).length
    rw [List.length_set]
    rcases List.mem_append.mp he with hpast | hlast
    · exact h.within e hpast
    · rw [List.mem_singleton.mp hlast]
      exact (List.getElem?_eq_some_iff.mp hi).1

end Recorded

theorem upholds_recorded : Upholds (fun _ => recording) Recorded where
  step {s i op owed} h hi _ _ := by
    refine ⟨trivial, h.step hi fun log hlog => ?_⟩
    obtain ⟨before, hbefore, rfl⟩ := Option.map_eq_some_iff.mp hlog
    exact ⟨before, hbefore, rfl⟩
  due h hi _ _ := h.step hi nofun
  stop {s i} h := by
    refine ⟨fun j log hj => ?_, h.within⟩
    change Function.update s.phase i none j = some log at hj
    by_cases hij : j = i
    · rw [hij, Function.update_self] at hj
      cases hj
    · rw [Function.update_of_ne hij] at hj
      exact h.own j log hj
  clock h := ⟨h.own, h.within⟩

/-! ### Programs and their logs -/

namespace Program

variable {P : List LogEntry → Except Failure α → Prop} {Q : List LogEntry → Except Failure β → Prop}
  {log : List LogEntry}

/-- After a log so far, what a complete run adds to it fits its result. -/
def Leaves (p : Program α) (log : List LogEntry) (P : List LogEntry → Except Failure α → Prop) :
    Prop :=
  ∀ owed, p.Obeys recording (fun _ phase r => ∃ left, phase = some left ∧ P left r) owed
    (some log)

theorem leaves_done {a : α} (h : P log (.ok a)) : (done a).Leaves log P :=
  fun _ => ⟨log, rfl, h⟩

theorem leaves_step {op : Op} {next : op.Answer → Program α}
    (h : ∀ a, (next a).Leaves (log ++ op.log a) P) : (step op next).Leaves log P :=
  fun _ => ⟨trivial, fun a _ => h a _⟩

theorem leaves_unlogged {op : Op} {next : op.Answer → Program α} (hop : ∀ a, op.log a = [])
    (h : ∀ a, (next a).Leaves log P) : (step op next).Leaves log P := by
  refine leaves_step fun a => ?_
  rw [hop a, List.append_nil]
  exact h a

theorem Leaves.bind {p : Program α} {f : α → Program β} (hp : p.Leaves log P)
    (hf : ∀ left a, P left (.ok a) → (f a).Leaves left Q)
    (he : ∀ left e, P left (.error e) → Q left (.error e)) : (p.bind f).Leaves log Q := by
  refine fun owed => (hp owed).bind ?_ ?_
  · rintro owed' _ a ⟨left, rfl, hleft⟩
    exact hf left a hleft owed'
  · rintro owed' _ e ⟨left, rfl, hleft⟩
    exact ⟨left, rfl, he left e hleft⟩

theorem Leaves.attempt {p : Program α} (hp : p.Leaves log P) :
    p.attempt.Leaves log fun left r => ∃ s, r = .ok s ∧ P left s := by
  refine fun owed => (hp owed).attempt ?_
  rintro owed' _ r ⟨left, rfl, hleft⟩
  exact ⟨left, rfl, r, rfl, hleft⟩

theorem leaves_of_allSteps {allowed : Op → Prop} {p : Program α}
    (hp : p.AllSteps allowed fun _ _ => True) (h : ∀ op a, allowed op → op.log a = []) :
    p.Leaves log fun left _ => left = log := by
  induction p with
  | done a => exact leaves_done rfl
  | fail e => exact fun _ => ⟨log, rfl, rfl⟩
  | step op next ih =>
    exact leaves_unlogged (fun a => h op a hp.1) fun a => ih a (hp.2 a trivial)

theorem Leaves.mono {P' : List LogEntry → Except Failure α → Prop} {p : Program α}
    (hp : p.Leaves log P) (h : ∀ left r, P left r → P' left r) : p.Leaves log P' := by
  refine fun owed => (hp owed).mono ?_
  rintro _ _ r ⟨left, hphase, hleft⟩
  exact ⟨left, hphase, h left r hleft⟩

def Yields (p : Program α) (log : List LogEntry) (R : α → List LogEntry → Prop) : Prop :=
  p.Leaves log fun left r => ∃ a, r = .ok a ∧ R a left

variable {R : α → List LogEntry → Prop} {S : β → List LogEntry → Prop}

theorem yields_done {a : α} (h : R a log) : (done a).Yields log R := leaves_done ⟨a, rfl, h⟩

theorem Yields.bind {p : Program α} {f : α → Program β} (hp : p.Yields log R)
    (hf : ∀ a left, R a left → (f a).Yields left S) : (p.bind f).Yields log S := by
  refine Leaves.bind hp ?_ ?_
  · rintro left a ⟨_, ha, hleft⟩
    cases ha
    exact hf a left hleft
  · rintro left e ⟨_, he, -⟩
    cases he

theorem Yields.mono {R' : α → List LogEntry → Prop} {p : Program α} (hp : p.Yields log R)
    (h : ∀ a left, R a left → R' a left) : p.Yields log R' := by
  refine Leaves.mono hp ?_
  rintro left r ⟨a, ha, hleft⟩
  exact ⟨a, ha, h a left hleft⟩

theorem Yields.attempt {p : Program α} (hp : p.Yields log R) :
    p.attempt.Yields log fun r left => ∃ a, r = .ok a ∧ R a left :=
  Leaves.attempt hp

theorem yields_attempt_bind {allowed : Op → Prop} {p : Program α}
    (hp : p.AllSteps allowed fun _ _ => True) (h : ∀ op a, allowed op → op.log a = [])
    {f : Except Failure α → Program β} (hf : ∀ r, (f r).Yields log S) :
    (p.attempt.bind f).Yields log S := by
  have hattempt : p.attempt.Yields log fun _ left => left = log :=
    (leaves_of_allSteps hp h).attempt
  refine hattempt.bind fun r left hleft => ?_
  rw [hleft]
  exact hf r

end Program

theorem TaskPool.fit_of_ended {programs : List (Program α)}
    {P : Nat → List LogEntry → Except Failure α → Prop}
    (hprograms : ∀ (i : Nat) (p : Program α), programs[i]? = some p → p.Leaves [] (P i)) (w : World)
    (ms : List Move) : let c : TaskPool α := ⟨programs.map .start, w⟩
    (∀ e ∈ c.events ms, e.task < programs.length) ∧
      ∀ (i : Nat) (t : Task α) (r : Except Failure α), (c.after ms).tasks[i]? = some t →
        t.result? = some r → P i (ownLog i (c.events ms)) r := by
  intro c
  have howes : c.owes = List.replicate programs.length [] := by
    rw [TaskPool.owes, List.map_map, List.eq_replicate_iff]
    refine ⟨List.length_map _, fun owed howed => ?_⟩
    obtain ⟨p, -, rfl⟩ := List.mem_map.mp howed
    rfl
  have hobeys : c.Obeys (fun _ => recording)
      (fun i _ phase r => ∃ left, phase = some left ∧ P i left r) fun _ => some [] := by
    intro i t ht
    obtain ⟨p, hp, rfl⟩ := Option.map_eq_some_iff.mp (List.getElem?_map.symm.trans ht)
    exact ⟨hprograms i p hp [], fun op hop => absurd hop List.not_mem_nil⟩
  have hstart : Recorded ⟨c.owes, w, fun _ => some [], []⟩ := by
    rw [howes]
    exact .start
  obtain ⟨phase, hafter, hrecorded⟩ := hobeys.after upholds_recorded hstart ms
  refine ⟨fun e he => ?_, fun i t r ht hr => ?_⟩
  · have hlength := hrecorded.within e he
    change e.task < ((c.after ms).tasks.map Task.owed).length at hlength
    rw [List.length_map, c.length_after, List.length_map] at hlength
    exact hlength
  · cases t with
    | leaving owed => cases hr
    | running p owed =>
      obtain ⟨left, hphase, hleft⟩ := (hafter i _ ht).1.ends hr
      have hown : left = ownLog i (c.events ms) := hrecorded.own i left hphase
      exact hown ▸ hleft

end TokenKeeper
