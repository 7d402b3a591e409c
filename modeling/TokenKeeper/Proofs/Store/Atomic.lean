import TokenKeeper.Proofs.Json.Comparison
import TokenKeeper.Proofs.Store.Fields
import TokenKeeper.Proofs.FileWrites

/-!
# Calls on a file that may fail

A call on a collection file reads the documents in memory, writes the new ones to the disk step by
step, and keeps them in memory only if every step went well. So a call that fails, at whichever
step, changes neither the memory nor the file, and one that succeeds makes the file the text of what
is then in memory. After every row of calls the file is the text of the memory, whatever goes wrong
in each.
-/
namespace TokenKeeper

open Disk (TempApart SameOutcome SameBut)

/-! ### Calls -/

namespace Holdings

def hasValue (docs : Holdings) (key field : String) (expected : Json) : Bool :=
  ((docs key).bind fun doc => Dict.get? doc field).any fun v => v.same expected

end Holdings

inductive DocumentCall
  | find (key : String)
  | upsert (key : String) (fields : Document)
  | delete (key : String)
  | deleteIf (key field : String) (expected : Json)

namespace DocumentCall

inductive Answer
  | found (doc : Option Document)
  | done
  | removed (whether : Bool)
  | failed (e : Failure)

def Answer.ofResult {α : Type} (answer : α → Answer) : Except Failure α → Answer
  | .ok a => answer a
  | .error e => .failed e

def writes (docs : Holdings) : DocumentCall → Bool
  | .find _ => false
  | .upsert _ _ => true
  | .delete key => (docs key).isSome
  | .deleteIf key field expected => docs.hasValue key field expected

def after (docs : Holdings) : DocumentCall → Holdings
  | .find _ => docs
  | .upsert key fields => docs.set key fields
  | .delete key => docs.put key none
  | .deleteIf key field expected =>
    if docs.hasValue key field expected then docs.put key none else docs

def answer (docs : Holdings) : DocumentCall → Answer
  | .find key => .found (docs key)
  | .upsert _ _ | .delete _ => .done
  | .deleteIf key field expected => .removed (docs.hasValue key field expected)

def perform : DocumentCall → World → Answer × World
  | .find key, w =>
    let (result, w) := World.perform (.find key) w
    (.ofResult .found result, w)
  | .upsert key fields, w =>
    let (result, w) := World.perform (.upsert key fields) w
    (.ofResult (fun _ => .done) result, w)
  | .delete key, w =>
    let (result, w) := World.perform (.delete key) w
    (.ofResult (fun _ => .done) result, w)
  | .deleteIf key field expected, w =>
    let (result, w) := World.perform (.deleteIf key field expected) w
    (.ofResult .removed result, w)

def next (c : FileCollection) : DocumentCall → Dict Document
  | .find _ => c.documents
  | .upsert key fields =>
    Dict.insert c.documents key (Dict.insertAll ((c.find key).getD []) fields)
  | .delete key | .deleteIf key _ _ => Dict.erase c.documents key

def performInSteps (temp : Place) (call : DocumentCall) (fault : Option Fault)
    (s : FileCollection × Disk) : Answer × FileCollection × Disk :=
  if call.writes s.1.find then
    match s.2.replaceInSteps s.1.path (FileCollection.text (call.next s.1)) temp fault with
    | (.ok (), d) => (call.answer s.1.find, ⟨s.1.path, call.next s.1⟩, d)
    | (.error e, d) => (.failed e, s.1, d)
  else (call.answer s.1.find, s)

variable {w : World} {c : FileCollection}

theorem find_next {call : DocumentCall} (h : call.writes c.find = true) (key : String) :
    Dict.get? (call.next c) key = call.after c.find key := by
  cases call with
  | find => cases h
  | upsert k fields =>
    rw [next, Dict.get?_insert, after, Holdings.set, Holdings.put]
    rfl
  | delete k =>
    rw [next, Dict.get?_erase, after, Holdings.put]
    rfl
  | deleteIf k field expected =>
    have hafter : (deleteIf k field expected).after c.find = Holdings.put c.find k none := if_pos h
    rw [next, Dict.get?_erase, hafter]
    rfl

theorem after_of_not_writes {call : DocumentCall} {docs : Holdings} (h : call.writes docs = false) :
    call.after docs = docs := by
  cases call with
  | find => rfl
  | upsert => cases h
  | delete key =>
    have hnone : docs key = none := Option.isSome_eq_false_iff.mp h |> Option.isNone_iff_eq_none.mp
    funext other
    rw [after, Holdings.put]
    split
    · next he => rw [← he, hnone]
    · rfl
  | deleteIf key field expected => exact if_neg (Bool.eq_false_iff.mp h)

theorem hasValue_find (c : FileCollection) (key field : String) (expected : Json) :
    c.hasValue key field expected = Holdings.hasValue c.find key field expected := by
  rw [FileCollection.hasValue, Holdings.hasValue]
  cases (c.find key).bind fun doc => Dict.get? doc field <;> rfl

theorem perform_eq (hc : w.collection = .file c) (call : DocumentCall) :
    call.perform w =
      if call.writes c.find then
        match w.disk.replace c.path (FileCollection.text (call.next c)) w.fault with
        | .ok d => (call.answer c.find, w.withFile (⟨c.path, call.next c⟩, d))
        | .error e => (.failed e, w)
      else (call.answer c.find, w) := by
  have hsame : w.withFile (c, w.disk) = w := by rw [World.withFile, ← hc]
  cases call with
  | find key =>
    simp only [perform, World.perform, World.find, hc]
    rfl
  | upsert key fields =>
    simp only [perform, World.perform, World.upsert, hc, FileCollection.upsert,
      FileCollection.store, bind, Except.bind, writes, if_true, next]
    cases w.disk.replace c.path _ w.fault <;> rfl
  | delete key =>
    have hcontains : Dict.contains c.documents key = (c.find key).isSome := rfl
    cases hfound : (c.find key).isSome with
    | false =>
      simp only [perform, World.perform, World.delete, hc, FileCollection.delete, hcontains, hfound,
        writes, Bool.false_eq_true, if_false, bind, Except.bind, pure, Except.pure, hsame]
      rfl
    | true =>
      simp only [perform, World.perform, World.delete, hc, FileCollection.delete, hcontains, hfound,
        FileCollection.store, writes, if_true, bind, Except.bind, next]
      cases w.disk.replace c.path _ w.fault <;> rfl
  | deleteIf key field expected =>
    cases hvalue : Holdings.hasValue c.find key field expected with
    | false =>
      simp only [perform, World.perform, World.deleteIf, hc, FileCollection.deleteIf, hasValue_find,
        hvalue, writes, answer, Bool.false_eq_true, if_false, bind, Except.bind, pure, Except.pure,
        hsame]
      rfl
    | true =>
      simp only [perform, World.perform, World.deleteIf, hc, FileCollection.deleteIf, hasValue_find,
        hvalue, writes, answer, FileCollection.store, if_true, bind, Except.bind, next]
      cases w.disk.replace c.path _ w.fault <;> rfl

/-! ### One call -/

variable {temp : Place} {d d' : Disk} {call : DocumentCall} {fault : Option Fault}

/-- What a call in steps may come to. Only a call that has something to write can fail, and none
that has something to write goes well in spite of a fault. -/
inductive Outcome (temp : Place) (call : DocumentCall) (fault : Option Fault)
    (s : FileCollection × Disk) : Answer → FileCollection × Disk → Prop
  | idle (hwrites : call.writes s.1.find = false) :
    Outcome temp call fault s (call.answer s.1.find) s
  | failed {s' : FileCollection × Disk} (e : Failure) (hwrites : call.writes s.1.find = true)
    (hmemory : s'.1 = s.1) (hfile : s'.2.node? s.1.path = s.2.node? s.1.path)
    (hothers : SameBut temp s.2 s'.2) : Outcome temp call fault s (.failed e) s'
  | done {s' : FileCollection × Disk} {place : Place} (hwrites : call.writes s.1.find = true)
    (hfault : fault = none) (hpath : s'.1.path = s.1.path)
    (hmemory : ∀ key, s'.1.find key = call.after s.1.find key)
    (hfile : s'.2.readText? s.1.path = some (FileCollection.text s'.1.documents))
    (hplace : s.2.place? s.1.path = some place)
    (hothers : ∀ p, p ≠ place → p ≠ temp → s'.2.at? p = s.2.at? p) :
    Outcome temp call fault s (call.answer s.1.find) s'

/-- A call that writes does in steps what a replacement of the file would do at once, on a disk that
differs from this one in the temporary file at most. -/
theorem performInSteps_of_writes (h : SameBut temp d d') (hwrites : call.writes c.find = true)
    (fault : Option Fault) :
    (∃ e after, d.replace c.path (FileCollection.text (call.next c)) (fault.map Fault.step) =
        .error e ∧ call.performInSteps temp fault (c, d') = (.failed e, c, after) ∧
        SameBut temp d after) ∨
    ∃ next after, d.replace c.path (FileCollection.text (call.next c)) (fault.map Fault.step) =
        .ok next ∧ call.performInSteps temp fault (c, d') =
          (call.answer c.find, ⟨c.path, call.next c⟩, after) ∧ SameBut temp next after := by
  have houtcome := Disk.sameOutcome_replaceInSteps h c.path (FileCollection.text (call.next c))
    fault
  simp only [performInSteps, hwrites, if_true]
  generalize Disk.replaceInSteps c.path _ temp fault d' = did at houtcome ⊢
  obtain ⟨answer, after⟩ := did
  cases hmeant : d.replace c.path (FileCollection.text (call.next c)) (fault.map Fault.step) with
  | error e =>
    rw [hmeant] at houtcome
    obtain ⟨rfl, hsame⟩ := houtcome
    exact .inl ⟨e, after, rfl, rfl, hsame⟩
  | ok next =>
    rw [hmeant] at houtcome
    obtain ⟨rfl, hsame⟩ := houtcome
    exact .inr ⟨next, after, rfl, rfl, hsame⟩

theorem performInSteps_of_not_writes (hwrites : call.writes c.find = false)
    (fault : Option Fault) (d : Disk) :
    call.performInSteps temp fault (c, d) = (call.answer c.find, c, d) := by
  simp only [performInSteps, hwrites, Bool.false_eq_true, if_false]

theorem outcome_performInSteps (htempApart : TempApart d c.path temp) (call : DocumentCall)
    (fault : Option Fault) :
    Outcome temp call fault (c, d) (call.performInSteps temp fault (c, d)).1
      (call.performInSteps temp fault (c, d)).2 := by
  cases hwrites : call.writes c.find with
  | false =>
    rw [performInSteps_of_not_writes hwrites]
    exact .idle hwrites
  | true =>
    rcases performInSteps_of_writes (.refl htempApart.free) hwrites fault with
      ⟨e, after, -, hsteps, hsame⟩ | ⟨next, after, hreplace, hsteps, hsame⟩
    · rw [hsteps]
      exact .failed e hwrites rfl (hsame.node? htempApart) hsame
    · have hfault := Option.map_eq_none_iff.mp (Disk.mishap_of_replace hreplace)
      have hread := Disk.readText?_of_replace hreplace
      rw [hfault] at hreplace
      obtain ⟨dir, place, -, -, hplace, hfree, rfl⟩ := Disk.replace_eq_ok hreplace
      have hdirectories := Disk.isDirectoryAt_put_file hfree
        (Utf8.encode (FileCollection.text (call.next c))) true
      rw [hsteps]
      refine .done hwrites hfault rfl (find_next hwrites) ?_ hplace fun p hp htemp => ?_
      · exact (hsame.readText? (htempApart.congr hdirectories)).trans hread
      · rw [hsame.at? p htemp, Disk.at?_put, if_neg hp]

theorem performInSteps_perform (hc : w.collection = .file c) (h : SameBut temp w.disk d)
    (call : DocumentCall) (fault : Option Fault) :
    ∃ answer c' d' v, call.performInSteps temp fault (c, d) = (answer, c', d') ∧
      call.perform { w with fault := fault.map Fault.step } = (answer, v) ∧
      v.collection = .file c' ∧ SameBut temp v.disk d' ∧ c'.path = c.path ∧
      ∀ p, v.disk.isDirectoryAt p = w.disk.isDirectoryAt p := by
  have hperform := perform_eq (w := { w with fault := fault.map Fault.step }) hc call
  cases hwrites : call.writes c.find with
  | false =>
    rw [performInSteps_of_not_writes hwrites]
    rw [hwrites, if_neg Bool.false_ne_true] at hperform
    exact ⟨_, c, d, _, rfl, hperform, hc, h, rfl, fun _ => rfl⟩
  | true =>
    rw [hwrites, if_pos rfl] at hperform
    rcases performInSteps_of_writes h hwrites fault with
      ⟨e, after, hreplace, hsteps, hsame⟩ | ⟨next, after, hreplace, hsteps, hsame⟩
    · simp only [hreplace] at hperform
      exact ⟨_, _, _, _, hsteps, hperform, hc, hsame, rfl, fun _ => rfl⟩
    · simp only [hreplace] at hperform
      rw [Disk.mishap_of_replace hreplace] at hreplace
      obtain ⟨dir, place, -, -, -, hfree, rfl⟩ := Disk.replace_eq_ok hreplace
      exact ⟨_, _, _, _, hsteps, hperform, rfl, hsame, rfl, Disk.isDirectoryAt_put_file hfree _ _⟩

/-! ### Rows of calls -/

def performAll : List (DocumentCall × Option Fault) → World → List Answer × World
  | [], w => ([], w)
  | (call, fault) :: rest, w =>
    let (answer, w) := call.perform { w with fault := fault.map Fault.step }
    let (answers, w) := performAll rest w
    (answer :: answers, w)

def performAllInSteps (temp : Place) :
    List (DocumentCall × Option Fault) → FileCollection × Disk → List Answer × FileCollection × Disk
  | [], s => ([], s)
  | (call, fault) :: rest, s =>
    let (answer, s) := call.performInSteps temp fault s
    let (answers, s) := performAllInSteps temp rest s
    (answer :: answers, s)

def afterAll : List DocumentCall → List Answer → Holdings → Holdings
  | _ :: calls, .failed _ :: answers, docs => afterAll calls answers docs
  | call :: calls, _ :: answers, docs => afterAll calls answers (call.after docs)
  | _, _, docs => docs

theorem afterAll_done (call : DocumentCall) (calls : List DocumentCall) (docs : Holdings)
    (answers : List Answer) (start : Holdings) :
    afterAll (call :: calls) (call.answer docs :: answers) start =
      afterAll calls answers (call.after start) := by
  cases call <;> rfl

theorem Outcome.afterAll {s s' : FileCollection × Disk} {a : Answer}
    (h : Outcome temp call fault s a s') (calls : List DocumentCall) (answers : List Answer) :
    afterAll (call :: calls) (a :: answers) s.1.find = afterAll calls answers s'.1.find := by
  cases h with
  | idle hwrites => rw [afterAll_done, after_of_not_writes hwrites]
  | failed e _ hmemory => rw [hmemory]; rfl
  | done _ _ _ hmemory => rw [afterAll_done, funext hmemory]

/-- The file has not been written since the start, or holds what is in memory. -/
def Kept (start s : FileCollection × Disk) : Prop :=
  (s.1 = start.1 ∧ s.2.node? start.1.path = start.2.node? start.1.path) ∨
    s.2.readText? start.1.path = some (FileCollection.text s.1.documents)

theorem Outcome.kept {start s s' : FileCollection × Disk} {a : Answer}
    (h : Outcome temp call fault s a s') (hpath : s.1.path = start.1.path) (hkept : Kept start s) :
    s'.1.path = start.1.path ∧ Kept start s' := by
  cases h with
  | idle => exact ⟨hpath, hkept⟩
  | failed e _ hmemory hfile =>
    rw [hpath] at hfile
    refine ⟨by rw [hmemory, hpath], ?_⟩
    rcases hkept with ⟨hstart, hunwritten⟩ | hread
    · exact .inl ⟨hmemory.trans hstart, hfile.trans hunwritten⟩
    · refine .inr ?_
      rw [hmemory, Disk.readText?, Disk.read?, hfile]
      exact hread
  | done _ _ hsame _ hfile =>
    rw [hpath] at hfile hsame
    exact ⟨hsame, .inr hfile⟩

theorem performAllInSteps_performAll {start : FileCollection × Disk} (hc : w.collection = .file c)
    (h : SameBut temp w.disk d) (htempApart : TempApart d c.path temp)
    (hpath : c.path = start.1.path) (hkept : Kept start (c, d))
    (requests : List (DocumentCall × Option Fault)) :
    ∃ answers c' d' v, performAllInSteps temp requests (c, d) = (answers, c', d') ∧
      performAll requests w = (answers, v) ∧ v.collection = .file c' ∧ SameBut temp v.disk d' ∧
      TempApart d' c'.path temp ∧ c'.path = start.1.path ∧ Kept start (c', d') ∧
      c'.find = afterAll (requests.map Prod.fst) answers c.find := by
  -- Both disks have the same directories, so that the temporary file stays beside the file.
  induction requests generalizing w c d with
  | nil => exact ⟨[], c, d, w, rfl, rfl, hc, h, htempApart, hpath, hkept, rfl⟩
  | cons request rest ih =>
    obtain ⟨call, fault⟩ := request
    obtain ⟨a, c₁, d₁, v₁, hsteps, hperform, hc₁, hsame, hpath₁, hdirectories⟩ :=
      performInSteps_perform hc h call fault
    have houtcome := outcome_performInSteps htempApart call fault
    rw [hsteps] at houtcome
    have htempApart₁ : TempApart d₁ c₁.path temp := by
      rw [hpath₁]
      refine htempApart.congr fun p => ?_
      rw [hsame.isDirectoryAt, hdirectories, h.isDirectoryAt]
    obtain ⟨hpath', hkept'⟩ := houtcome.kept hpath hkept
    obtain ⟨as, c', d', v, hstepsAll, hperformAll, hc', hsame', htempApart', hlast, hkeptAll,
      hfind⟩ := ih hc₁ hsame htempApart₁ hpath' hkept'
    refine ⟨a :: as, c', d', v, ?_, ?_, hc', hsame', htempApart', hlast, hkeptAll, ?_⟩
    · simp only [performAllInSteps, hsteps, hstepsAll]
    · simp only [performAll, hperform, hperformAll]
    · rw [hfind, List.map_cons]
      exact (houtcome.afterAll (rest.map Prod.fst) as).symm

/-- Whatever calls are made of a collection file, and whichever step of a write fails in each: the
program answers and keeps what the calls do in their steps; what is in memory is what the calls that
did not fail make of the documents; the file is as it was at first or the text of what is in memory;
and the next call, if it fails, changes neither, if it does not, both or has nothing to write. -/
theorem file_calls_atomic (hc : w.collection = .file c) (htempApart : TempApart w.disk c.path temp)
    (requests : List (DocumentCall × Option Fault)) :
    ∃ answers c' d' v, performAllInSteps temp requests (c, w.disk) = (answers, c', d') ∧
      performAll requests w = (answers, v) ∧ v.collection = .file c' ∧ SameBut temp v.disk d' ∧
      c'.find = afterAll (requests.map Prod.fst) answers c.find ∧
      ((c' = c ∧ d'.node? c.path = w.disk.node? c.path) ∨
        d'.readText? c.path = some (FileCollection.text c'.documents)) ∧
      ∀ call fault, Outcome temp call fault (c', d')
        (performInSteps temp call fault (c', d')).1
        (performInSteps temp call fault (c', d')).2 := by
  have hstart : Kept (c, w.disk) (c, w.disk) := .inl ⟨rfl, rfl⟩
  obtain ⟨answers, c', d', v, hsteps, hperform, hc', hsame, htempApart', -, hkept, hfind⟩ :=
    performAllInSteps_performAll hc (.refl htempApart.free) htempApart rfl hstart requests
  exact ⟨answers, c', d', v, hsteps, hperform, hc', hsame, hfind, hkept,
    outcome_performInSteps htempApart'⟩

/-! ### A deletion that fails -/

namespace Unrenamed

def file : FileCollection := ⟨"tokens.json", []⟩

def world : World := { World.isolated .epoch .empty with collection := .file file }

def draft : Place := Disk.workingPlace ++ [Disk.temporaryName "tokens.json" "7"]

theorem draft_tempApart : TempApart world.disk file.path draft :=
  Disk.tempApart_temporaryName (by decide) (by decide) "7" (by decide)

def requests : List (DocumentCall × Option Fault) :=
  [(.upsert "u1" [("a", .int 1)], none), (.delete "u1", some .rename),
    (.deleteIf "u1" "a" (.int 2), some .permissions)]

theorem answers_requests : (performAll requests world).1 =
    [.done, .failed (.fileWrite .rename), .removed false] := rfl

theorem document_stays : world.collection = .file file ∧ TempApart world.disk file.path draft ∧
    ∃ c' d', performAllInSteps draft requests (file, world.disk) =
        ([.done, .failed (.fileWrite .rename), .removed false], c', d') ∧
      c'.find "u1" = some [("a", .int 1)] ∧
      d'.readText? file.path = some (FileCollection.text c'.documents) := by
  obtain ⟨answers, c', d', v, hsteps, hperform, -, -, hfind, hkept, -⟩ :=
    file_calls_atomic (w := world) rfl draft_tempApart requests
  have hanswers : answers = [.done, .failed (.fileWrite .rename), .removed false] := by
    rw [← answers_requests, hperform]
  subst hanswers
  have hdoc : c'.find "u1" = some [("a", .int 1)] := by
    rw [hfind]
    rfl
  refine ⟨rfl, draft_tempApart, c', d', hsteps, hdoc, hkept.resolve_left fun ⟨hstart, _⟩ => ?_⟩
  rw [hstart] at hdoc
  cases hdoc

end Unrenamed

end DocumentCall
end TokenKeeper
