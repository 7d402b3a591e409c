import TokenKeeper.Disk

/-!
# Files that take writes

Putting a file where no directory lies leaves every path as it was. So a file that can be replaced
once can be replaced again and again, by any text, and the text last put there is what it holds.
-/
namespace TokenKeeper.Disk

def unlink (d : Disk) (place : Place) : Disk := ⟨d.entries.filter fun e => e.1 != place⟩

theorem at?_unlink (d : Disk) (place p : Place) :
    (d.unlink place).at? p = if p = place then none else d.at? p := by
  unfold unlink at?
  rw [List.find?_filter]
  by_cases h : p = place
  · subst h
    rw [if_pos rfl, Option.map_eq_none_iff, List.find?_eq_none]
    intro e _ he
    obtain ⟨hne, heq⟩ := of_decide_eq_true he
    exact bne_iff_ne.mp hne (beq_iff_eq.mp heq)
  · have hsame : (fun e : Place × Node => decide ((e.1 != place) = true ∧ (e.1 == p) = true)) =
        fun e => e.1 == p := by
      funext e
      by_cases he : e.1 = p
      · rw [beq_iff_eq.mpr he, decide_eq_true ⟨bne_iff_ne.mpr (he ▸ h), rfl⟩]
      · rw [beq_eq_false_iff_ne.mpr he, decide_eq_false fun hb => absurd hb.2 (by decide)]
    rw [if_neg h, hsame]

theorem at?_put (d : Disk) (place : Place) (node : Node) (p : Place) :
    (d.put place node).at? p = if p = place then some node else d.at? p := by
  have hput : (d.put place node).at? p = ((d.unlink place).at? p).or (at? ⟨[(place, node)]⟩ p) := by
    unfold at? put unlink
    rw [List.find?_append, Option.map_or]
  have hlast : at? ⟨[(place, node)]⟩ p = if p = place then some node else none := by
    rw [at?, List.find?_singleton]
    by_cases h : p = place
    · simp [h]
    · simp [h, Ne.symm h]
  rw [hput, at?_unlink, hlast]
  by_cases h : p = place
  · rw [if_pos h, if_pos h, if_pos h, Option.none_or]
  · rw [if_neg h, if_neg h, if_neg h, Option.or_none]

theorem isDirectoryAt_put_file {d : Disk} {place : Place} (h : d.isDirectoryAt place = false)
    (bytes : Bytes) (guarded : Bool) (p : Place) :
    (d.put place (.file bytes guarded)).isDirectoryAt p = d.isDirectoryAt p := by
  by_cases hp : p = place
  · subst hp
    rw [h, isDirectoryAt, at?_put, if_pos rfl]
  · rw [isDirectoryAt, at?_put, if_neg hp, isDirectoryAt]

section

variable {d d' : Disk} (h : ∀ p, d'.isDirectoryAt p = d.isDirectoryAt p)

include h

theorem walk_congr (here : Place) (rest : List String) : d'.walk here rest = d.walk here rest := by
  induction rest generalizing here with
  | nil => rfl
  | cons part rest ih => rw [walk, walk, h, ih, ih, ih]

theorem place?_congr (path : String) : d'.place? path = d.place? path := by
  unfold place?
  split
  · rfl
  · exact walk_congr h _ _
  · exact walk_congr h _ _

theorem isDirectory_congr (path : String) : d'.isDirectory path = d.isDirectory path := by
  rw [isDirectory, isDirectory, place?_congr h]
  cases d.place? path with
  | none => rfl
  | some place => exact h place

end

def Writable (d : Disk) (path : String) : Prop :=
  ∀ text, ∃ d', d.replace path text none = .ok d'

theorem replace_eq_ok {d d' : Disk} {path text : String} (h : d.replace path text none = .ok d') :
    ∃ dir place, parent? path = some dir ∧ d.isDirectory dir = true ∧ d.place? path = some place ∧
      d.isDirectoryAt place = false ∧ d' = d.put place (.file (Utf8.encode text) true) := by
  unfold replace at h
  split at h
  · cases h
  · next dir hdir =>
    split at h
    · cases h
    · next hisdir =>
      split at h
      · next heq => cases heq
      · split at h
        · cases h
        · next place hplace =>
          split at h
          · cases h
          · next hfile =>
            cases h
            refine ⟨dir, place, hdir, ?_, hplace, Bool.eq_false_iff.mpr hfile, rfl⟩
            rwa [Bool.not_eq_true, Bool.not_eq_false'] at hisdir

theorem replace_of_place {d : Disk} {path dir : String} {place : Place}
    (hdir : parent? path = some dir) (hisdir : d.isDirectory dir = true)
    (hplace : d.place? path = some place) (hfile : d.isDirectoryAt place = false) (text : String) :
    d.replace path text none = .ok (d.put place (.file (Utf8.encode text) true)) := by
  unfold replace
  simp only [hdir, hisdir, hplace, hfile, Bool.not_true, Bool.false_eq_true, if_false]

theorem writable_of_replace {d d' : Disk} {path text : String}
    (h : d.replace path text none = .ok d') : d.Writable path := by
  obtain ⟨dir, place, hdir, hisdir, hplace, hfile, -⟩ := replace_eq_ok h
  exact fun other => ⟨_, replace_of_place hdir hisdir hplace hfile other⟩

theorem writable_after_replace {d d' : Disk} {path text : String}
    (h : d.replace path text none = .ok d') : d'.Writable path := by
  obtain ⟨dir, place, hdir, hisdir, hplace, hfile, rfl⟩ := replace_eq_ok h
  have hsame := isDirectoryAt_put_file hfile (Utf8.encode text) true
  have hisdir' := (isDirectory_congr hsame dir).trans hisdir
  have hplace' := (place?_congr hsame path).trans hplace
  have hfile' := (hsame place).trans hfile
  exact fun other => ⟨_, replace_of_place hdir hisdir' hplace' hfile' other⟩

theorem mishap_of_replace {d d' : Disk} {path text : String} {mishap : Option WriteStep}
    (h : d.replace path text mishap = .ok d') : mishap = none := by
  cases mishap with
  | none => rfl
  | some step =>
    unfold replace at h
    split at h
    · cases h
    · split at h <;> cases h

theorem exists?_of_readText? {d : Disk} {path text : String} (h : d.readText? path = some text) :
    d.exists? path = true := by
  unfold readText? read? at h
  unfold exists?
  cases hnode : d.node? path with
  | none => simp [hnode] at h
  | some node => rfl

theorem readText?_of_replace {d d' : Disk} {path text : String} {mishap : Option WriteStep}
    (h : d.replace path text mishap = .ok d') : d'.readText? path = some text := by
  cases mishap_of_replace h
  obtain ⟨dir, place, -, -, hplace, hfile, rfl⟩ := replace_eq_ok h
  have hsame := isDirectoryAt_put_file hfile (Utf8.encode text) true
  have hnode : (d.put place (.file (Utf8.encode text) true)).node? path =
      some (.file (Utf8.encode text) true) := by
    rw [node?, place?_congr hsame, hplace, Option.bind_some, at?_put, if_pos rfl]
  simp [readText?, read?, hnode]

theorem kind_of_replace {d : Disk} {path text : String} {mishap : Option WriteStep} {e : Failure}
    (h : d.replace path text mishap = .error e) : e.kind = .store := by
  unfold replace at h
  split at h
  · cases h
    rfl
  · split at h
    · cases h
      rfl
    · split at h
      · cases h
        rfl
      · split at h
        · cases h
          rfl
        · split at h <;> cases h
          rfl

end TokenKeeper.Disk
