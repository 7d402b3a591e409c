import TokenKeeper.Proofs.Blanks
import TokenKeeper.Secret.Sources

/-!
# Where secrets are found

A text holds a secret if something is left of it when it is trimmed. A secret comes from its
variable if the variable is set to such a text. A variable that is of no use leaves it to the file,
which has to be readable if it is named. `Sourced` lists these cases, and looking a secret up comes
to one of them and to no other (`resolve_eq_iff`).
-/
namespace TokenKeeper.Secret

variable {env : Environment} {disk : Disk} {name raw : String} {file : Option String}
  {secret : Secret}

def Holds (raw : String) (secret : Secret) : Prop :=
  Text.Trimmed raw secret.text ∧ secret.text ≠ ""

def Blank (raw : String) : Prop := ∀ c ∈ raw.toList, Text.isBlank c = true

theorem ofText?_eq_some_iff : ofText? raw = some secret ↔ Holds raw secret := by
  rw [ofText?, Holds, ← Text.trim_eq_iff]
  split
  next hempty => exact iff_of_false nofun fun h => h.2 (h.1.symm.trans hempty)
  next hne =>
    rw [Option.some_inj]
    refine ⟨fun h => h ▸ ⟨rfl, hne⟩, fun h => ?_⟩
    cases secret
    exact congrArg Secret.mk h.1

theorem ofText?_eq_none_iff : ofText? raw = none ↔ Blank raw := by
  have htrimmed := Text.trimmed_trim raw
  rw [ofText?]
  split
  next hempty =>
    obtain ⟨front, back, hraw, hfront, hback⟩ := htrimmed.between
    rw [hempty] at hraw
    refine iff_of_true rfl fun c hc => ?_
    rw [hraw] at hc
    simp only [String.toList_empty, List.nil_append, List.mem_append] at hc
    exact hc.elim (hfront c) (hback c)
  next hne =>
    refine iff_of_false nofun fun hblank => hne ?_
    refine Text.trim_eq_iff.mpr ⟨⟨raw.toList, [], ?_, hblank, nofun⟩, nofun, nofun⟩
    simp

theorem Holds.again (h : Holds raw secret) : Holds secret.text secret :=
  ⟨⟨⟨[], [], by simp, nofun, nofun⟩, h.1.first, h.1.last⟩, h.2⟩

/-! ### Variables -/

def InVariable (env : Environment) (name : String) (secret : Secret) : Prop :=
  ∃ raw, Dict.get? env name = some (Utf8.encode raw) ∧ Holds raw secret

inductive Unusable (env : Environment) (name : String) : Prop
  | unset (h : Dict.get? env name = none)
  | noText {bytes : Bytes} (h : Dict.get? env name = some bytes)
    (hbytes : ∀ raw, bytes ≠ Utf8.encode raw)
  | blank {raw : String} (h : Dict.get? env name = some (Utf8.encode raw)) (hblank : Blank raw)

theorem ofVariable?_eq_some_iff : ofVariable? env name = some secret ↔
    InVariable env name secret := by
  simp only [ofVariable?, Environment.text?, Option.bind_eq_some_iff, Utf8.decode?_eq_some_iff,
    exists_eq_right, ofText?_eq_some_iff, InVariable]

theorem ofVariable?_of_get? {bytes : Bytes} (h : Dict.get? env name = some bytes) :
    ofVariable? env name = (Utf8.decode? bytes).bind ofText? := by
  rw [ofVariable?, Environment.text?, h, Option.bind_some]

theorem ofVariable?_eq_none_iff : ofVariable? env name = none ↔ Unusable env name := by
  constructor
  · intro h
    cases hget : Dict.get? env name with
    | none => exact .unset hget
    | some bytes =>
      rw [ofVariable?_of_get? hget] at h
      cases hdecode : Utf8.decode? bytes with
      | none =>
        refine .noText hget fun raw hraw => ?_
        rw [hraw, Utf8.decode?_encode] at hdecode
        cases hdecode
      | some raw =>
        rw [hdecode, Option.bind_some] at h
        rw [Utf8.decode?_eq_some_iff.mp hdecode] at hget
        exact .blank hget (ofText?_eq_none_iff.mp h)
  · intro h
    cases h with
    | unset hget => rw [ofVariable?, Environment.text?, hget, Option.bind_none, Option.bind_none]
    | @noText bytes hget hbytes =>
      have hdecode : Utf8.decode? bytes = none := Option.eq_none_iff_forall_ne_some.mpr
        fun raw hraw => hbytes raw (Utf8.decode?_eq_some_iff.mp hraw)
      rw [ofVariable?_of_get? hget, hdecode, Option.bind_none]
    | blank hget hblank =>
      rw [ofVariable?_of_get? hget, Utf8.decode?_encode, Option.bind_some]
      exact ofText?_eq_none_iff.mpr hblank

/-! ### Variables and files -/

def Unreadable (env : Environment) (disk : Disk) (name : String) (file : Option String)
    (path : String) : Prop :=
  Unusable env name ∧ file = some path ∧ ∀ raw, disk.read? path ≠ some (Utf8.encode raw)

/-- What looking a secret up comes to, in each case. -/
inductive Sourced (env : Environment) (disk : Disk) (name : String) (file : Option String) :
    Except ConfigFailure (Option Secret) → Prop
  | set {secret : Secret} (h : InVariable env name secret) :
    Sourced env disk name file (.ok (some secret))
  | file {path raw : String} {secret : Secret} (hvariable : Unusable env name)
    (hfile : file = some path) (hread : disk.read? path = some (Utf8.encode raw))
    (h : Holds raw secret) : Sourced env disk name file (.ok (some secret))
  | blankFile {path raw : String} (hvariable : Unusable env name) (hfile : file = some path)
    (hread : disk.read? path = some (Utf8.encode raw)) (hblank : Blank raw) :
    Sourced env disk name file (.ok none)
  | unnamed (hvariable : Unusable env name) (hfile : file = none) :
    Sourced env disk name file (.ok none)
  | unreadable {path : String} (h : Unreadable env disk name file path) :
    Sourced env disk name file (.error (.secretFile path))

theorem sourced_resolve (env : Environment) (disk : Disk) (name : String) (file : Option String) :
    Sourced env disk name file (resolve env disk name file) := by
  unfold resolve
  cases hvariable : ofVariable? env name with
  | some secret => exact .set (ofVariable?_eq_some_iff.mp hvariable)
  | none =>
    have hunusable := ofVariable?_eq_none_iff.mp hvariable
    cases hfile : file with
    | none => exact .unnamed hunusable rfl
    | some path =>
      change Sourced env disk name (some path) (ofFile disk path)
      unfold ofFile
      cases hread : disk.readText? path with
      | none =>
        refine .unreadable ⟨hunusable, rfl, fun raw hraw => ?_⟩
        rw [Disk.readText?_eq_some_iff.mpr hraw] at hread
        cases hread
      | some raw =>
        have hbytes := Disk.readText?_eq_some_iff.mp hread
        cases hsecret : ofText? raw with
        | some secret =>
          simp only [hsecret]
          exact .file hunusable rfl hbytes (ofText?_eq_some_iff.mp hsecret)
        | none =>
          simp only [hsecret]
          exact .blankFile hunusable rfl hbytes (ofText?_eq_none_iff.mp hsecret)

theorem Sourced.resolve_eq {found : Except ConfigFailure (Option Secret)}
    (h : Sourced env disk name file found) : resolve env disk name file = found := by
  have hfile (path : String) (hvariable : Unusable env name) :
      resolve env disk name (some path) = ofFile disk path := by
    rw [resolve, ofVariable?_eq_none_iff.mpr hvariable]
  cases h with
  | set h =>
    unfold resolve
    rw [ofVariable?_eq_some_iff.mpr h]
  | file hvariable hnamed hread h =>
    rw [hnamed, hfile _ hvariable, ofFile, Disk.readText?_eq_some_iff.mpr hread]
    exact congrArg Except.ok (ofText?_eq_some_iff.mpr h)
  | blankFile hvariable hnamed hread hblank =>
    rw [hnamed, hfile _ hvariable, ofFile, Disk.readText?_eq_some_iff.mpr hread]
    exact congrArg Except.ok (ofText?_eq_none_iff.mpr hblank)
  | unnamed hvariable hnamed => rw [hnamed, resolve, ofVariable?_eq_none_iff.mpr hvariable]
  | unreadable h =>
    obtain ⟨hvariable, hnamed, hread⟩ := h
    have hnone : disk.readText? _ = none := Option.eq_none_iff_forall_ne_some.mpr
      fun raw hraw => hread raw (Disk.readText?_eq_some_iff.mp hraw)
    rw [hnamed, hfile _ hvariable, ofFile, hnone]

theorem resolve_eq_iff {found : Except ConfigFailure (Option Secret)} :
    resolve env disk name file = found ↔ Sourced env disk name file found :=
  ⟨fun h => h ▸ sourced_resolve env disk name file, Sourced.resolve_eq⟩

theorem Sourced.holds (h : Sourced env disk name file (.ok (some secret))) :
    Holds secret.text secret := by
  cases h with
  | set h =>
    obtain ⟨raw, -, hholds⟩ := h
    exact hholds.again
  | file _ _ _ hholds => exact hholds.again

theorem sourced_unreadable_iff {path : String} :
    Sourced env disk name file (.error (.secretFile path)) ↔
      Unreadable env disk name file path := by
  refine ⟨fun h => ?_, .unreadable⟩
  cases h with
  | unreadable h => exact h

theorem exists_sourced_iff : (∃ found, Sourced env disk name file (.ok found)) ↔
    ∀ path, ¬ Unreadable env disk name file path := by
  constructor
  · rintro ⟨found, hfound⟩ path hpath
    exact nomatch hfound.resolve_eq.symm.trans (Sourced.unreadable hpath).resolve_eq
  · intro h
    have hsource := sourced_resolve env disk name file
    cases hresolve : resolve env disk name file with
    | ok found => exact ⟨found, hresolve ▸ hsource⟩
    | error e =>
      rw [hresolve] at hsource
      cases hsource with
      | unreadable hpath => exact absurd hpath (h _)

theorem resolve_congr {env' : Environment} {disk' : Disk}
    (henv : Dict.get? env' name = Dict.get? env name)
    (hdisk : ∀ path ∈ file, disk'.read? path = disk.read? path) :
    resolve env' disk' name file = resolve env disk name file := by
  have hvariable : ofVariable? env' name = ofVariable? env name := by
    rw [ofVariable?, ofVariable?, Environment.text?, Environment.text?, henv]
  unfold resolve
  rw [hvariable]
  cases ofVariable? env name with
  | some secret => rfl
  | none =>
    cases file with
    | none => rfl
    | some path =>
      change ofFile disk' path = ofFile disk path
      rw [ofFile, ofFile, Disk.readText?, Disk.readText?, hdisk path rfl]

end TokenKeeper.Secret
