import TokenKeeper.Proofs.Disk

/-!
# The steps of a write

A file is replaced in three steps: the new text goes to a temporary file beside it, only the owner
may read that file from then on, and it takes the name. Each step may fail, and a failure in the
first one may leave anything in the temporary file. Taken step by step, a write does what
`Disk.replace` does in one, everywhere but in the temporary file: the third step alone reaches the
file itself, and it is the last one that can fail.
-/
namespace TokenKeeper

inductive Fault
  | temporary (leftover : Option (Bytes × Bool))
  | permissions
  | rename

def Fault.step : Fault → WriteStep
  | .temporary _ => .temporary
  | .permissions => .permissions
  | .rename => .rename

namespace Disk

abbrev Step := Disk → Except Failure Unit × Disk

def Step.andThen (first second : Step) : Step := fun d =>
  match first d with
  | (.ok (), d) => second d
  | (.error e, d) => (.error e, d)

def leave (d : Disk) (temp : Place) : Option (Bytes × Bool) → Disk
  | none => d
  | some (bytes, guarded) => d.put temp (.file bytes guarded)

def writeTemporary (path text : String) (temp : Place) (fault : Option Fault) : Step := fun d =>
  match parent? path with
  | none => (.error .fileParent, d)
  | some dir =>
    if d.isDirectory dir then
      match fault with
      | some (.temporary leftover) => (.error (.fileWrite .temporary), d.leave temp leftover)
      | _ => (.ok (), d.put temp (.file (Utf8.encode text) false))
    else (.error (.fileWrite .temporary), d)

def restrict (temp : Place) (fault : Option Fault) : Step := fun d =>
  match fault, d.at? temp with
  | some .permissions, _ => (.error (.fileWrite .permissions), d)
  | _, some (.file bytes _) => (.ok (), d.put temp (.file bytes true))
  | _, _ => (.error (.fileWrite .permissions), d)

def rename (path : String) (temp : Place) (fault : Option Fault) : Step := fun d =>
  match fault, d.at? temp, d.place? path with
  | some .rename, _, _ => (.error (.fileWrite .rename), d)
  | _, some node, some place =>
    if d.isDirectoryAt place then (.error (.fileWrite .rename), d)
    else (.ok (), (d.unlink temp).put place node)
  | _, _, _ => (.error (.fileWrite .rename), d)

def replaceInSteps (path text : String) (temp : Place) (fault : Option Fault) : Step :=
  (writeTemporary path text temp fault).andThen ((restrict temp fault).andThen
    (rename path temp fault))

/-! ### Disks that differ in one file -/

/-- Two disks are the same but for one place, where neither has a directory. -/
structure SameBut (temp : Place) (d d' : Disk) : Prop where
  at? : ∀ p, p ≠ temp → d'.at? p = d.at? p
  before : d.isDirectoryAt temp = false
  after : d'.isDirectoryAt temp = false

variable {temp place : Place} {d d' e : Disk} {path text : String}

namespace SameBut

theorem refl (h : d.isDirectoryAt temp = false) : SameBut temp d d := ⟨fun _ _ => rfl, h, h⟩

theorem trans (h : SameBut temp d d') (h' : SameBut temp d' e) : SameBut temp d e :=
  ⟨fun p hp => (h'.at? p hp).trans (h.at? p hp), h.before, h'.after⟩

theorem isDirectoryAt (h : SameBut temp d d') (p : Place) :
    d'.isDirectoryAt p = d.isDirectoryAt p := by
  by_cases hp : p = temp
  · rw [hp, h.before, h.after]
  · rw [Disk.isDirectoryAt, h.at? p hp, Disk.isDirectoryAt]

theorem place? (h : SameBut temp d d') (path : String) : d'.place? path = d.place? path :=
  place?_congr h.isDirectoryAt path

theorem isDirectory (h : SameBut temp d d') (path : String) :
    d'.isDirectory path = d.isDirectory path :=
  isDirectory_congr h.isDirectoryAt path

theorem put_temp (h : d.isDirectoryAt temp = false) (bytes : Bytes) (guarded : Bool) :
    SameBut temp d (d.put temp (.file bytes guarded)) := by
  refine ⟨fun p hp => by rw [at?_put, if_neg hp], h, ?_⟩
  rw [isDirectoryAt_put_file h, h]

theorem put (h : SameBut temp d d') {bytes : Bytes} {guarded : Bool}
    (hplace : d.isDirectoryAt place = false) :
    SameBut temp (d.put place (.file bytes guarded)) (d'.put place (.file bytes guarded)) := by
  have hplace' : d'.isDirectoryAt place = false := (h.isDirectoryAt place).trans hplace
  refine ⟨fun p hp => ?_, ?_, ?_⟩
  · rw [at?_put, at?_put, h.at? p hp]
  · rw [isDirectoryAt_put_file hplace, h.before]
  · rw [isDirectoryAt_put_file hplace', h.after]

end SameBut

theorem SameBut.unlink_temp (h : d.isDirectoryAt temp = false) :
    SameBut temp d (d.unlink temp) := by
  refine ⟨fun p hp => by rw [at?_unlink, if_neg hp], h, ?_⟩
  rw [Disk.isDirectoryAt, at?_unlink, if_pos rfl]

/-! ### A temporary file beside another file -/

/-- A place for the temporary file: no directory lies there, and the path does not lead there. -/
structure TempApart (d : Disk) (path : String) (temp : Place) : Prop where
  free : d.isDirectoryAt temp = false
  apart : ∀ place, d.place? path = some place → place ≠ temp

theorem TempApart.congr (h : TempApart d path temp)
    (hd : ∀ p, d'.isDirectoryAt p = d.isDirectoryAt p) : TempApart d' path temp :=
  ⟨(hd temp).trans h.free, fun place hplace => h.apart place (place?_congr hd path ▸ hplace)⟩

theorem SameBut.node? (h : SameBut temp d d') (htempApart : TempApart d path temp) :
    d'.node? path = d.node? path := by
  rw [Disk.node?, Disk.node?, h.place?]
  cases hplace : d.place? path with
  | none => rfl
  | some place => exact h.at? place (htempApart.apart place hplace)

theorem SameBut.readText? (h : SameBut temp d d') (htempApart : TempApart d path temp) :
    d'.readText? path = d.readText? path := by
  rw [Disk.readText?, Disk.read?, h.node? htempApart, Disk.readText?, Disk.read?]

/-! ### Where a name leads -/

def named (parts : List String) : List String := parts.filter fun part => part != "" && part != "."

theorem named_cons (part : String) (rest : List String) : named (part :: rest) =
    if part = "" ∨ part = "." then named rest else part :: named rest := by
  by_cases h : part = "" ∨ part = "."
  · rcases h with rfl | rfl <;> rfl
  · obtain ⟨hempty, hdot⟩ := not_or.mp h
    rw [if_neg h, named, List.filter_cons_of_pos]
    · rfl
    · rw [bne_iff_ne.mpr hempty, bne_iff_ne.mpr hdot]
      rfl

variable {here p : Place} {rest : List String} {name : String}

theorem walk_unnamed (h : d.walk here rest = some p) (hnamed : named rest = []) : p = here := by
  induction rest with
  | nil =>
    cases h
    rfl
  | cons part rest ih =>
    rw [named_cons] at hnamed
    rw [walk] at h
    split at hnamed
    · next hskip =>
      rw [if_pos hskip] at h
      split at h
      · cases h
      · exact ih h hnamed
    · cases hnamed

theorem getLast?_of_walk (h : d.walk here rest = some p) (hname : (named rest).getLast? = some name)
    (hup : name ≠ "..") : p.getLast? = some name := by
  induction rest generalizing here with
  | nil => cases hname
  | cons part rest ih =>
    rw [named_cons] at hname
    rw [walk] at h
    split at h
    · cases h
    · split at hname
      · next hskip =>
        rw [if_pos hskip] at h
        exact ih h hname
      · next hskip =>
        rw [if_neg hskip] at h
        cases hrest : (named rest).getLast? with
        | some last =>
          rw [List.getLast?_cons, hrest] at hname
          split at h <;> exact ih h (hrest.trans hname)
        | none =>
          have hnone := List.getLast?_eq_none_iff.mp hrest
          rw [hnone, List.getLast?_singleton] at hname
          cases hname
          rw [if_neg hup] at h
          rw [walk_unnamed h hnone, List.getLast?_concat]

def temporaryName (name id : String) : String := "." ++ name ++ ".tmp." ++ id

theorem tempApart_temporaryName {dir : Place} {name : String}
    (hname : (namedParts path).getLast? = some name) (hup : name ≠ "..") (id : String)
    (hfree : d.isDirectoryAt (dir ++ [temporaryName name id]) = false) :
    TempApart d path (dir ++ [temporaryName name id]) := by
  refine ⟨hfree, fun place hplace he => ?_⟩
  have hlast : place.getLast? = some name := by
    unfold place? at hplace
    split at hplace
    · cases hplace
    · next hparts =>
      rw [namedParts, hparts] at hname
      exact getLast?_of_walk hplace hname hup
    · exact getLast?_of_walk hplace hname hup
  rw [he, List.getLast?_concat] at hlast
  have hlength := congrArg String.length (Option.some.inj hlast)
  simp only [temporaryName, String.length_append] at hlength
  have hdot : ".".length = 1 := rfl
  omega

/-! ### One write -/

/-- What steps make of a disk compared with what they are meant to: the same answer, and the same
disk, or the old one after a failure, all but for the temporary file. -/
def SameOutcome (temp : Place) (d : Disk) (meant : Except Failure Disk)
    (did : Except Failure Unit × Disk) : Prop :=
  match meant with
  | .ok next => did.1 = .ok () ∧ SameBut temp next did.2
  | .error e => did.1 = .error e ∧ SameBut temp d did.2

theorem sameOutcome_failed {err : Failure} (h : SameBut temp d e) :
    SameOutcome temp d (.error err) (.error err, e) := ⟨rfl, h⟩

theorem SameBut.leave (h : d.isDirectoryAt temp = false) (leftover : Option (Bytes × Bool)) :
    SameBut temp d (d.leave temp leftover) := by
  cases leftover with
  | none => exact .refl h
  | some file => exact .put_temp h file.1 file.2

section

variable {dir : String} (hparent : parent? path = some dir) (hdir : d.isDirectory dir = true)

include hparent hdir

theorem replace_of_dir (text : String) (mishap : Option WriteStep) :
    d.replace path text mishap =
      match mishap, d.place? path with
      | some step, _ => .error (.fileWrite step)
      | none, none => .error (.fileWrite .rename)
      | none, some place =>
        if d.isDirectoryAt place then .error (.fileWrite .rename)
        else .ok (d.put place (.file (Utf8.encode text) true)) := by
  unfold replace
  simp only [hparent, hdir, Bool.not_true, Bool.false_eq_true, if_false]
  cases mishap with
  | some step => rfl
  | none => cases d.place? path <;> rfl

theorem writeTemporary_of_dir (text : String) (temp : Place) (fault : Option Fault) :
    writeTemporary path text temp fault d =
      match fault with
      | some (.temporary leftover) => (.error (.fileWrite .temporary), d.leave temp leftover)
      | _ => (.ok (), d.put temp (.file (Utf8.encode text) false)) := by
  unfold writeTemporary
  simp only [hparent, hdir, if_true]

theorem sameOutcome_rename (h : SameBut temp d e)
    (hfile : e.at? temp = some (.file (Utf8.encode text) true)) :
    SameOutcome temp d (d.replace path text none) (rename path temp none e) := by
  rw [replace_of_dir hparent hdir]
  simp only [rename, hfile, h.place?]
  cases hplace : d.place? path with
  | none => exact sameOutcome_failed h
  | some place =>
    simp only [h.isDirectoryAt]
    cases hfree : d.isDirectoryAt place with
    | true => exact sameOutcome_failed h
    | false => exact ⟨rfl, (h.trans (.unlink_temp h.after)).put hfree⟩

end

/-- A write in steps does what a replacement in one step does, also if the temporary file of an
earlier one is still there. -/
theorem sameOutcome_replaceInSteps (h : SameBut temp d d') (path text : String)
    (fault : Option Fault) :
    SameOutcome temp d (d.replace path text (fault.map Fault.step))
      (replaceInSteps path text temp fault d') := by
  -- Without its directory no write gets as far as a fault.
  cases hparent : parent? path with
  | none =>
    simp only [replaceInSteps, Step.andThen, writeTemporary, replace, hparent]
    exact sameOutcome_failed h
  | some dir =>
    cases hdir : d.isDirectory dir with
    | false =>
      simp only [replaceInSteps, Step.andThen, writeTemporary, replace, hparent, h.isDirectory,
        hdir]
      exact sameOutcome_failed h
    | true =>
      have hwritten : SameBut temp d (d'.put temp (.file (Utf8.encode text) false)) :=
        h.trans (.put_temp h.after _ _)
      have hguarded := hwritten.trans (.put_temp hwritten.after (Utf8.encode text) true)
      have hfile : ∀ (e : Disk) (guarded : Bool),
          (e.put temp (.file (Utf8.encode text) guarded)).at? temp =
            some (.file (Utf8.encode text) guarded) := fun e guarded => by
        rw [at?_put, if_pos rfl]
      rw [replaceInSteps, Step.andThen,
        writeTemporary_of_dir hparent ((h.isDirectory dir).trans hdir)]
      cases fault with
      | none =>
        simp only [Step.andThen, restrict, hfile]
        exact sameOutcome_rename hparent hdir hguarded (hfile _ _)
      | some fault =>
        rw [replace_of_dir hparent hdir]
        cases fault with
        | temporary leftover => exact sameOutcome_failed (h.trans (.leave h.after leftover))
        | permissions => exact sameOutcome_failed hwritten
        | rename =>
          simp only [Step.andThen, restrict, hfile]
          exact sameOutcome_failed hguarded

end Disk
end TokenKeeper
