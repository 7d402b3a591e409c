import TokenKeeper.Proofs.Json.Rows

/-!
# Merge patches of values

What a merge patch makes of a value: its nulls take fields away, its objects are merged into those
that were there, and everything else takes the place of what was there. For names without NUL this
is what a database makes of the text of a value, at every depth. It sets the fields of the patch to
their values only where nothing is null and no object leaves a member behind.
-/
namespace TokenKeeper

open Json (escaped Glyph Spelling memberSpellings)
open Json.Spelling (NulFree entries? patched patchedMembers alterMember removeMember)

namespace Json

mutual

/-- A value after a patch. -/
def mergedInto (target : Json) : Json → Json
  | .obj changes => .obj (mergedMembers (target.obj?.getD []) changes)
  | replacement => replacement

def mergedMembers (doc : Document) : List (String × Json) → Document
  | [] => doc
  | (name, .null) :: rest => mergedMembers (Dict.erase doc name) rest
  | (name, v) :: rest =>
    mergedMembers (Dict.insert doc name (mergedInto ((Dict.get? doc name).getD .null) v)) rest

end

/-- A patch by these fields sets them to their values, and does no more. -/
def Sets (doc fields : Document) : Prop :=
  ∀ f ∈ fields, f.2 ≠ .null ∧ mergedInto ((Dict.get? doc f.1).getD .null) f.2 = f.2

variable {doc fields : Document} {v target : Json} {name key : String}

theorem mergedMembers_null (doc : Document) (name : String) (rest : List (String × Json)) :
    mergedMembers doc ((name, .null) :: rest) = mergedMembers (Dict.erase doc name) rest := by
  rw [mergedMembers]

theorem mergedMembers_set (h : v ≠ .null) (doc : Document) (name : String)
    (rest : List (String × Json)) : mergedMembers doc ((name, v) :: rest) =
      mergedMembers (Dict.insert doc name (mergedInto ((Dict.get? doc name).getD .null) v))
        rest := by
  rw [mergedMembers]
  exact h

theorem Ordered.mergedMembers (h : Dict.Ordered doc) (fields : List (String × Json)) :
    Dict.Ordered (mergedMembers doc fields) := by
  induction fields generalizing doc with
  | nil => exact h
  | cons f rest ih =>
    obtain ⟨name, v⟩ := f
    by_cases hv : v = .null
    · subst hv
      rw [mergedMembers_null]
      exact ih (h.erase name)
    · rw [mergedMembers_set hv]
      exact ih (h.insert name _)

def leftUnder (stored change : Option Json) : Option Json :=
  match change with
  | none => stored
  | some .null => none
  | some v => some (mergedInto (stored.getD .null) v)

theorem get?_mergedMembers (hfields : (Dict.keys fields).Nodup) (doc : Document) (key : String) :
    Dict.get? (mergedMembers doc fields) key =
      leftUnder (Dict.get? doc key) (Dict.get? fields key) := by
  induction fields generalizing doc with
  | nil => rfl
  | cons f rest ih =>
    obtain ⟨name, v⟩ := f
    obtain ⟨hnew, hrest⟩ := List.nodup_cons.mp hfields
    rw [Dict.get?]
    by_cases hkey : name = key
    · subst hkey
      have hlater : Dict.get? rest name = none := Dict.get?_eq_none_of_notMem hnew
      rw [if_pos rfl]
      by_cases hv : v = .null
      · subst hv
        rw [mergedMembers_null, ih hrest, hlater, Dict.get?_erase, if_pos rfl]
        rfl
      · rw [mergedMembers_set hv, ih hrest, hlater, Dict.get?_insert, if_pos rfl]
        cases v <;> first | rfl | contradiction
    · rw [if_neg hkey]
      by_cases hv : v = .null
      · subst hv
        rw [mergedMembers_null, ih hrest, Dict.get?_erase, if_neg hkey]
      · rw [mergedMembers_set hv, ih hrest, Dict.get?_insert, if_neg hkey]

theorem leftUnder_eq_iff (stored : Option Json) (v : Json) : leftUnder stored (some v) = some v ↔
    v ≠ .null ∧ mergedInto (stored.getD .null) v = v := by
  cases v <;> simp [leftUnder]

theorem sets_iff (hfields : (Dict.keys fields).Nodup) : Sets doc fields ↔
    ∀ key, Dict.get? (mergedMembers doc fields) key =
      (Dict.get? fields key).or (Dict.get? doc key) := by
  simp only [get?_mergedMembers hfields]
  constructor
  · intro h key
    cases hget : Dict.get? fields key with
    | none => rfl
    | some v => exact (leftUnder_eq_iff _ _).mpr (h (key, v) (Dict.mem_of_get? hget))
  · intro h f hf
    have hkey := h f.1
    rw [Dict.get?_of_mem hfields hf] at hkey
    exact (leftUnder_eq_iff _ _).mp hkey

theorem mergedMembers_of_sets (hdoc : Dict.Ordered doc) (hfields : (Dict.keys fields).Nodup)
    (h : Sets doc fields) : mergedMembers doc fields = Dict.insertAll doc fields := by
  refine (Ordered.mergedMembers hdoc fields).ext (hdoc.insertAll fields) fun key => ?_
  rw [(sets_iff hfields).mp h, Dict.get?_insertAll hfields]

/-! ### Trees of well-named values -/

mutual

/-- No NUL is in the names of an object, nor in those of the objects in it. Lists are not looked
into, because patches take them as a whole. -/
def NamesFree : Json → Prop
  | .obj members => MembersFree members
  | _ => True

def MembersFree : List (String × Json) → Prop
  | [] => True
  | (name, v) :: rest => NulFree name ∧ NamesFree v ∧ MembersFree rest

end

theorem membersFree_iff {members : List (String × Json)} :
    MembersFree members ↔ ∀ e ∈ members, NulFree e.1 ∧ NamesFree e.2 := by
  induction members with
  | nil => simp [MembersFree]
  | cons e rest ih => simp [MembersFree, ih, and_assoc]

namespace Spelling

def UniqueNames : Nat → Spelling → Prop
  | depth + 1, .obj ms =>
    (∃ es, entries? depth ms = some es ∧ Row.DistinctNulFree es) ∧ ∀ m ∈ ms, UniqueNames depth m.2
  | _, _ => True

/-- Members that spell these entries, and objects like them, for which names are told apart. -/
structure Kept (depth : Nat) (ms : List (List Glyph × Spelling)) (es : List (String × Json)) :
    Prop where
  entries : entries? depth ms = some es
  distinct : Row.DistinctNulFree es
  uniqueNames : ∀ m ∈ ms, UniqueNames depth m.2

variable {depth : Nat} {ms : List (List Glyph × Spelling)} {es members : List (String × Json)}
  {v p : Json} {t : Spelling}

theorem uniqueNames_obj_iff : UniqueNames (depth + 1) (.obj ms) ↔ ∃ es, Kept depth ms es :=
  ⟨fun ⟨⟨es, hes, hdistinct⟩, hms⟩ => ⟨es, hes, hdistinct, hms⟩,
    fun ⟨es, hes, hdistinct, hms⟩ => ⟨⟨es, hes, hdistinct⟩, hms⟩⟩

theorem uniqueNames_of_not_obj (h : t.members? = none) (depth : Nat) : UniqueNames depth t := by
  cases t with
  | obj ms => cases h
  | _ => cases depth <;> trivial

theorem spelling_ne_null (h : v ≠ .null) : v.spelling ≠ .null := by
  cases v with
  | null => contradiction
  | _ => exact nofun

theorem value?_obj_iff {doc : Document} :
    t.value? (depth + 1) = some (.obj doc) ↔
      ∃ ms es, t = .obj ms ∧ entries? depth ms = some es ∧ doc = Dict.ofList es := by
  constructor
  · intro h
    obtain ⟨ms, rfl⟩ := spells_of_value? h
    obtain ⟨es, hes, hdoc⟩ := Option.map_eq_some_iff.mp h
    cases hdoc
    exact ⟨ms, es, rfl, hes, rfl⟩
  · rintro ⟨ms, es, rfl, hes, rfl⟩
    rw [value?, hes]
    rfl

theorem exists_value?_of_mem (h : entries? depth ms = some es) {m : List Glyph × Spelling}
    (hm : m ∈ ms) : ∃ v, m.2.value? depth = some v := by
  induction ms generalizing es with
  | nil => cases hm
  | cons m' ms ih =>
    obtain ⟨e, rest, -, -, hvalue, hrest⟩ := Row.exists_of_entries?_cons h
    rcases List.mem_cons.mp hm with rfl | hm
    · exact ⟨e.2, hvalue⟩
    · exact ih hrest hm

theorem obj?_of_value? (h : t.value? depth = some v) (ht : t.members? = none) : v.obj? = none := by
  cases v with
  | obj doc =>
    obtain ⟨ms, rfl⟩ := spells_of_value? h
    cases ht
  | _ => rfl

theorem keys_of_entries? (h : entries? depth (memberSpellings members) = some es) :
    Dict.keys es = Dict.keys members := by
  induction members generalizing es with
  | nil =>
    cases h
    rfl
  | cons m rest ih =>
    obtain ⟨e, es, rfl, hname, -, hrest⟩ := Row.exists_of_entries?_cons h
    rw [text?_escaped] at hname
    have hkey : m.1 = e.1 := Option.some.inj hname
    change e.1 :: Dict.keys es = m.1 :: Dict.keys rest
    rw [hkey, ih hrest]

theorem entries?_of_value? (h : (Json.obj members).spelling.value? (depth + 1) =
    some (.obj members)) :
    entries? depth (memberSpellings members) = some members ∧ Dict.Ordered members := by
  obtain ⟨ms, es, hms, hes, hofList⟩ := value?_obj_iff.mp h
  cases hms
  have hordered : Dict.Ordered members := hofList ▸ Dict.ordered_ofList es
  have hsame : Dict.Ordered es := by
    have hkeys : (Dict.keys members).Pairwise (· < ·) := List.pairwise_map.mpr hordered
    rw [← keys_of_entries? hes] at hkeys
    exact List.pairwise_map.mp hkeys
  rw [hsame.ofList_eq] at hofList
  rw [hofList] at hes ⊢
  exact ⟨hes, hsame⟩

theorem value?_of_mem (h : entries? depth (memberSpellings members) = some members)
    {e : String × Json} (he : e ∈ members) : e.2.spelling.value? depth = some e.2 := by
  induction members with
  | nil => cases he
  | cons m rest ih =>
    obtain ⟨_, _, ⟨⟩, -, hvalue, hrest⟩ := Row.exists_of_entries?_cons h
    rcases List.mem_cons.mp he with rfl | he
    · exact hvalue
    · exact ih hrest he

theorem distinctNulFree_of_membersFree (hordered : Dict.Ordered members) (h : MembersFree members) :
    Row.DistinctNulFree members := by
  refine ⟨hordered.nodup_keys, fun k hk => ?_⟩
  obtain ⟨e, he, rfl⟩ := List.mem_map.mp hk
  exact (membersFree_iff.mp h e he).1

theorem uniqueNames_spelling (h : v.spelling.value? depth = some v) (hfree : NamesFree v) :
    UniqueNames depth v.spelling := by
  induction depth generalizing v with
  | zero => trivial
  | succ depth ih =>
    cases v with
    | obj members =>
      obtain ⟨hes, hordered⟩ := entries?_of_value? h
      refine uniqueNames_obj_iff.mpr
        ⟨members, hes, distinctNulFree_of_membersFree hordered hfree, ?_⟩
      rw [memberSpellings_eq, List.forall_mem_map]
      intro e he
      have hvalue := value?_of_mem hes he
      exact ih hvalue (membersFree_iff.mp hfree e he).2
    | _ => trivial

/-! ### Patches of such trees -/

theorem kept_nil : Kept depth [] [] :=
  ⟨rfl, ⟨List.nodup_nil, List.forall_mem_nil _⟩, List.forall_mem_nil _⟩

theorem entries?_removeMember (h : entries? depth ms = some es) (hes : Row.DistinctNulFree es)
    {name : String} (hname : NulFree name) :
    entries? depth (removeMember (escaped name) ms) = some (Dict.erase es name) := by
  induction ms generalizing es with
  | nil =>
    cases h
    rfl
  | cons m ms ih =>
    obtain ⟨⟨k, v⟩, rest, rfl, hk, hx, hrest⟩ := Row.exists_of_entries?_cons h
    obtain ⟨hnew, hdistinct⟩ := List.nodup_cons.mp hes.distinct
    have hkept : Row.DistinctNulFree rest := ⟨hdistinct, fun l hl => hes.nulFree l (.tail _ hl)⟩
    simp only [removeMember, Dict.erase, sameLabel_of_text? hk (text?_escaped name),
      readName_inj (hes.nulFree k List.mem_cons_self) hname, decide_eq_true_eq]
    split
    · next hkey =>
      rw [hrest, Dict.erase_of_notMem (hkey ▸ hnew)]
    · exact Row.entries?_cons hk hx (ih hrest hkept)

theorem Kept.removeMember (h : Kept depth ms es) {name : String} (hname : NulFree name) :
    Kept depth (removeMember (escaped name) ms) (Dict.erase es name) := by
  have hkeys : (Dict.keys (Dict.erase es name)).Sublist (Dict.keys es) :=
    (Dict.sublist_erase es name).map _
  refine ⟨entries?_removeMember h.entries h.distinct hname,
    ⟨h.distinct.distinct.sublist hkeys, fun k hk => h.distinct.nulFree k (hkeys.subset hk)⟩, ?_⟩
  exact fun m hm => h.uniqueNames m ((sublist_removeMember _ ms).subset hm)

theorem ofList_erase (h : (Dict.keys es).Nodup) (name : String) :
    Dict.ofList (Dict.erase es name) = Dict.erase (Dict.ofList es) name := by
  refine (Dict.ordered_ofList _).ext ((Dict.ordered_ofList es).erase name) fun key => ?_
  have herased : (Dict.keys (Dict.erase es name)).Nodup :=
    h.sublist ((Dict.sublist_erase es name).map _)
  rw [Dict.get?_ofList herased, Dict.get?_erase, Dict.get?_erase, Dict.get?_ofList h]

theorem forall_mem_alterMember {P : Spelling → Prop} {name : List Glyph}
    {change : Spelling → Spelling} (hnew : P (change .null)) (h : ∀ m ∈ ms, P m.2)
    (hchange : ∀ m ∈ ms, P (change m.2)) : ∀ m ∈ alterMember name change ms, P m.2 := by
  induction ms with
  | nil => exact List.forall_mem_singleton.mpr hnew
  | cons m ms ih =>
    obtain ⟨hm, hms⟩ := List.forall_mem_cons.mp h
    obtain ⟨hcm, hcms⟩ := List.forall_mem_cons.mp hchange
    rw [alterMember]
    split
    · exact List.forall_mem_cons.mpr ⟨hcm, hms⟩
    · exact List.forall_mem_cons.mpr ⟨hm, ih hms hcms⟩

/-- A patch of this value does to the trees of some depth what it does to their values. -/
def Patches (depth : Nat) (p : Json) : Prop :=
  ∀ t v, t.value? depth = some v → UniqueNames depth t →
    (patched t p.spelling).value? depth = some (mergedInto v p) ∧
      UniqueNames depth (patched t p.spelling)

theorem Kept.alterMember (h : Kept depth ms es) {name : String} (hname : NulFree name)
    (hp : Patches depth p) :
    Kept depth (alterMember (escaped name) (fun old => patched old p.spelling) ms)
      (Row.alterEntry es name fun old => mergedInto old p) := by
  have hnull : UniqueNames depth .null := uniqueNames_of_not_obj rfl depth
  refine ⟨Row.entries?_alterMember h.entries name (hp .null .null rfl hnull).1
    fun m hm v hv => (hp m.2 v hv (h.uniqueNames m hm)).1, h.distinct.alterEntry hname _, ?_⟩
  refine forall_mem_alterMember (hp .null .null rfl hnull).2 h.uniqueNames fun m hm => ?_
  obtain ⟨v, hv⟩ := exists_value?_of_mem h.entries hm
  exact (hp m.2 v hv (h.uniqueNames m hm)).2

theorem Kept.patchedMembers {changes : List (String × Json)}
    (hp : ∀ c ∈ changes, NulFree c.1 ∧ Patches depth c.2) (h : Kept depth ms es) :
    ∃ es', Kept depth (patchedMembers ms (memberSpellings changes)) es' ∧
      Dict.ofList es' = mergedMembers (Dict.ofList es) changes := by
  -- Each change leaves members whose names are told apart, among which the next one finds its own.
  induction changes generalizing ms es with
  | nil => exact ⟨es, h, rfl⟩
  | cons c rest ih =>
    obtain ⟨name, p⟩ := c
    obtain ⟨⟨hname, hpatches⟩, hrest⟩ := List.forall_mem_cons.mp hp
    by_cases hnull : p = .null
    · subst hnull
      rw [mergedMembers_null, ← ofList_erase h.distinct.distinct]
      change ∃ es', Kept depth (Spelling.patchedMembers ms
        ((escaped name, .null) :: memberSpellings rest)) es' ∧ _
      rw [patchedMembers_null]
      exact ih hrest (h.removeMember hname)
    · rw [mergedMembers_set hnull, ← h.distinct.ofList_alterEntry hname fun old => mergedInto old p]
      change ∃ es', Kept depth (Spelling.patchedMembers ms
        ((escaped name, p.spelling) :: memberSpellings rest)) es' ∧ _
      rw [patchedMembers_set (spelling_ne_null hnull)]
      exact ih hrest (h.alterMember hname hpatches)

theorem exists_kept (h : t.value? (depth + 1) = some v) (hunique : UniqueNames (depth + 1) t) :
    ∃ es, Kept depth (t.members?.getD []) es ∧ Dict.ofList es = v.obj?.getD [] := by
  cases t with
  | obj ms =>
    obtain ⟨es, hkept⟩ := uniqueNames_obj_iff.mp hunique
    rw [value?, hkept.entries] at h
    cases h
    exact ⟨es, hkept, rfl⟩
  | _ =>
    rw [obj?_of_value? h rfl]
    exact ⟨[], kept_nil, rfl⟩

/-- A patch of trees is a patch of the values they spell, where names are told apart. -/
theorem patches_of_value? (h : p.spelling.value? depth = some p) (hfree : NamesFree p) :
    Patches depth p := by
  -- A patch of an object goes one level down in all three: the patch, the tree and its value.
  induction depth generalizing p with
  | zero =>
    intro t v _ _
    cases p with
    | obj changes => cases h
    | _ => exact ⟨h, trivial⟩
  | succ depth ih =>
    intro t v ht hunique
    cases p with
    | obj changes =>
      obtain ⟨es, hkept, hobj⟩ := exists_kept ht hunique
      obtain ⟨hchanges, -⟩ := entries?_of_value? h
      have hp : ∀ c ∈ changes, NulFree c.1 ∧ Patches depth c.2 := fun c hc =>
        have hc' := membersFree_iff.mp hfree c hc
        ⟨hc'.1, ih (value?_of_mem hchanges hc) hc'.2⟩
      obtain ⟨es', hkept', hmerged⟩ := hkept.patchedMembers hp
      refine ⟨value?_obj_iff.mpr ⟨_, es', rfl, hkept'.entries, ?_⟩,
        uniqueNames_obj_iff.mpr ⟨es', hkept'⟩⟩
      rw [hmerged, hobj]
    | _ => exact ⟨h, trivial⟩

end Spelling
end Json

/-! ### Patches of rows -/

namespace Row

def UniqueNames (text : String) : Prop :=
  ∃ s, Spelling.ofText? text = some s ∧ s.UniqueNames Json.nestingLimit

structure Keeps (fields : Document) : Prop where
  reads : Json.documentOfText? (Json.obj fields).compact = some fields
  nulFree : Json.MembersFree fields

variable {text : String} {fields doc : Document}

theorem value?_of_documentOfText? {s : Spelling} (htext : Spelling.ofText? text = some s)
    (h : Json.documentOfText? text = some doc) :
    s.value? Json.nestingLimit = some (.obj doc) := by
  obtain ⟨j, hj, hdoc⟩ := Option.bind_eq_some_iff.mp h
  rw [Json.ofText?, htext] at hj
  cases j with
  | obj members =>
    cases hdoc
    exact hj
  | _ => cases hdoc

theorem documentOfText?_compact
    (h : (Json.obj fields).spelling.value? Json.nestingLimit = some (.obj fields)) :
    Json.documentOfText? (Json.obj fields).compact = some fields := by
  rw [Json.documentOfText?, Json.ofText?, Json.ofText?_compact]
  exact congrArg (Option.bind · Json.obj?) h

namespace Keeps

theorem value? (h : Keeps fields) :
    (Json.obj fields).spelling.value? Json.nestingLimit = some (.obj fields) :=
  value?_of_documentOfText? (Json.ofText?_compact _) h.reads

theorem ordered (h : Keeps fields) : Dict.Ordered fields := (Spelling.entries?_of_value? h.value?).2

theorem uniqueNames (h : Keeps fields) : UniqueNames (Json.obj fields).compact :=
  ⟨_, Json.ofText?_compact _, Spelling.uniqueNames_spelling h.value? h.nulFree⟩

end Keeps

theorem ordered_of_documentOfText? (h : Json.documentOfText? text = some doc) :
    Dict.Ordered doc := by
  obtain ⟨es, -, rfl⟩ := documentOfText?_iff.mp h
  exact Dict.ordered_ofList es

/-- A row that can be read takes such fields as a patch, and can be read again. -/
theorem UniqueNames.patched (h : UniqueNames text) (hdoc : Json.documentOfText? text = some doc)
    (hfields : Keeps fields) : ∃ text',
      Spelling.patchText? text (Json.obj fields).compact = some text' ∧ UniqueNames text' ∧
        Json.documentOfText? text' = some (Json.mergedMembers doc fields) := by
  obtain ⟨s, htext, hunique⟩ := h
  obtain ⟨target, es, htarget, hloose, -⟩ := exists_of_documentOfText? hdoc
  cases htext.symm.trans htarget
  obtain ⟨patch, es', hpatch, hpatchLoose, -⟩ := exists_of_documentOfText? hfields.reads
  cases (Json.ofText?_compact _).symm.trans hpatch
  have hvalue := value?_of_documentOfText? htext hdoc
  obtain ⟨hmerged, hunique'⟩ :=
    Spelling.patches_of_value? (p := .obj fields) hfields.value? hfields.nulFree _ _ hvalue hunique
  have hread := Spelling.ofText?_minified (Spelling.printed_patched (Json.obj fields).spelling
    (Spelling.printed_of_ofText? htext) (Json.obj fields).printed_spelling)
  refine ⟨_, ?_, ⟨_, hread, hunique'⟩, ?_⟩
  · simp only [Spelling.patchText?, hloose, hpatchLoose, Option.bind_eq_bind, Option.bind_some,
      Option.pure_def]
    rfl
  · rw [Json.documentOfText?, Json.ofText?, hread, Option.bind_some, Spelling.json?]
    exact congrArg (Option.bind · Json.obj?) hmerged

end Row
end TokenKeeper
