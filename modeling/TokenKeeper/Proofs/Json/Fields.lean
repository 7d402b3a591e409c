import Mathlib.Data.List.Forall2
import TokenKeeper.Proofs.Json.Escapes
import TokenKeeper.Proofs.Json.Integers

/-!
# The trees of a record

A record is read from a list of its first fields in order, or from an object that names each field
at most once, in any order and among any other members. A text is a string that writes it, and a
field that is not there may have a default. What is read from a tree is all of this and nothing
else.
-/
namespace TokenKeeper.Json.Spelling

variable {α : Type} {s v : Spelling} {members : List (List Glyph × Spelling)}
  {named : List (String × Spelling)} {name : String} {names : List String}
  {fields : List (Option Spelling)} {field : Option Spelling}

def Writes (spelled : List Glyph) (x : String) : Prop :=
  ∃ b, spelled = b.map some ∧ WritesText x.toList b

def IsText (s : Spelling) (x : String) : Prop := ∃ spelled, s = .str spelled ∧ Writes spelled x

def IsInt64 (s : Spelling) (n : Int64) : Prop := s = .num (Text.intChars n.toInt)

/-- What stands under a name: nothing, or the value of the only member of this name. -/
inductive Under (named : List (String × Spelling)) (name : String) : Option Spelling → Prop
  | nothing (h : name ∉ Dict.keys named) : Under named name none
  | single {before after : List (String × Spelling)} {v : Spelling}
    (h : named = before ++ (name, v) :: after) (hbefore : name ∉ Dict.keys before)
    (hafter : name ∉ Dict.keys after) : Under named name (some v)

inductive Gives (names : List String) : Spelling → List (Option Spelling) → Prop
  | items {items : List Spelling} {left : Nat} (h : items.length + left = names.length) :
    Gives names (.arr items) (items.map some ++ List.replicate left none)
  | members {members : List (List Glyph × Spelling)} {named : List (String × Spelling)}
    {fields : List (Option Spelling)}
    (hnames : List.Forall₂ (fun m n => Writes m.1 n.1 ∧ m.2 = n.2) members named)
    (hfields : List.Forall₂ (Under named) names fields) : Gives names (.obj members) fields

inductive OrDefault (Stands : Spelling → α → Prop) (default : α) : Option Spelling → α → Prop
  | missing : OrDefault Stands default none default
  | there {v : Spelling} {a : α} (h : Stands v a) : OrDefault Stands default (some v) a

/-! ### Values -/

theorem text?_eq_some_iff_writes {spelled : List Glyph} (h : (Token.str spelled).Reads)
    {x : String} : text? spelled = some x ↔ Writes spelled x := by
  obtain ⟨b, rfl, hb⟩ := Token.reads_iff.mp h
  rw [text?_eq_some_iff hb]
  refine ⟨fun hx => ⟨b, rfl, hx⟩, ?_⟩
  rintro ⟨b', he, hx⟩
  rwa [(List.map_inj_right fun _ _ => Option.some.inj).mp he]

def Exact (read : Spelling → Option α) (Stands : Spelling → α → Prop) : Prop :=
  ∀ s : Spelling, s.Printed → ∀ a, read s = some a ↔ Stands s a

theorem exact_string? : Exact string? IsText := by
  intro s h x
  cases s with
  | str spelled =>
    have hreads : (Token.str spelled).Reads := h _ List.mem_cons_self
    rw [string?, text?_eq_some_iff_writes hreads]
    refine ⟨fun hx => ⟨spelled, rfl, hx⟩, ?_⟩
    rintro ⟨_, ⟨⟩, hx⟩
    exact hx
  | _ =>
    refine ⟨nofun, ?_⟩
    rintro ⟨_, ⟨⟩, -⟩

theorem exact_int64? : Exact int64? IsInt64 := fun _ h _ => int64?_eq_some_iff h

variable {read : Spelling → Option α} {Stands : Spelling → α → Prop}

theorem Exact.required (h : Exact read Stands) (hfield : ∀ v, field = some v → v.Printed)
    {a : α} : required read field = some a ↔ ∃ v, field = some v ∧ Stands v a := by
  rw [Spelling.required, Option.bind_eq_some_iff]
  refine exists_congr fun v => and_congr_right fun hv => ?_
  exact h v (hfield v hv) a

theorem Exact.orDefault (h : Exact read Stands) (hfield : ∀ v, field = some v → v.Printed)
    {default a : α} : orDefault read default field = some a ↔ OrDefault Stands default field a := by
  cases field with
  | none =>
    constructor
    · rintro ⟨⟩
      exact .missing
    · rintro ⟨⟩
      rfl
  | some v =>
    rw [Spelling.orDefault, h v (hfield v rfl)]
    refine ⟨.there, ?_⟩
    rintro ⟨⟩
    assumption

/-! ### Fields -/

theorem mapM_eq_some_iff {α β : Type} {f : α → Option β} {as : List α} {bs : List β} :
    as.mapM f = some bs ↔ List.Forall₂ (fun a b => f a = some b) as bs := by
  induction as generalizing bs with
  | nil => simp [eq_comm]
  | cons a as ih =>
    simp only [List.mapM_cons, Option.bind_eq_bind, Option.bind_eq_some_iff, Option.pure_def,
      Option.some.injEq, List.forall₂_cons_left_iff, ih]
    constructor
    · rintro ⟨b, hb, bs, hbs, rfl⟩
      exact ⟨b, bs, hb, hbs, rfl⟩
    · rintro ⟨b, bs, hb, hbs, rfl⟩
      exact ⟨b, hb, bs, hbs, rfl⟩

theorem filter_eq_nil_iff_notMem : named.filter (·.1 == name) = [] ↔ name ∉ Dict.keys named := by
  rw [List.filter_eq_nil_iff, Dict.keys, List.mem_map, not_exists]
  refine forall_congr' fun m => ?_
  rw [not_and, beq_iff_eq]

theorem field?_eq_some_iff : field? named name = some field ↔ Under named name field := by
  unfold field?
  constructor
  · intro h
    split at h
    · next hfilter =>
      cases h
      exact .nothing (filter_eq_nil_iff_notMem.mp hfilter)
    · next k v hfilter =>
      cases h
      obtain ⟨before, after, rfl, hbefore, hk, hafter⟩ := List.filter_eq_cons_iff.mp hfilter
      have hk : k = name := beq_iff_eq.mp hk
      subst hk
      exact .single rfl (filter_eq_nil_iff_notMem.mp (List.filter_eq_nil_iff.mpr hbefore))
        (filter_eq_nil_iff_notMem.mp hafter)
    · cases h
  · intro h
    cases h with
    | nothing h => rw [filter_eq_nil_iff_notMem.mpr h]
    | single h hbefore hafter =>
      rw [h, List.filter_append, List.filter_cons, filter_eq_nil_iff_notMem.mpr hbefore,
        filter_eq_nil_iff_notMem.mpr hafter, if_pos (beq_self_eq_true name)]
      rfl

theorem namedMembers?_eq_some_iff (h : ∀ m ∈ members, (Token.str m.1).Reads) :
    namedMembers? members = some named ↔
      List.Forall₂ (fun m n => Writes m.1 n.1 ∧ m.2 = n.2) members named := by
  have hmember : ∀ (m : List Glyph × Spelling) (n : String × Spelling),
      ((Token.str m.1).Reads ∧ ((text? m.1).map fun name => (name, m.2)) = some n) ↔
        ((Token.str m.1).Reads ∧ Writes m.1 n.1 ∧ m.2 = n.2) := by
    intro m n
    refine and_congr_right fun hreads => ?_
    rw [← text?_eq_some_iff_writes hreads]
    obtain ⟨x, v⟩ := n
    simp [Option.map_eq_some_iff]
  unfold namedMembers?
  calc members.mapM _ = some named
      ↔ (∀ m ∈ members, (Token.str m.1).Reads) ∧ List.Forall₂ _ members named := by
        rw [mapM_eq_some_iff, and_iff_right h]
    _ ↔ (∀ m ∈ members, (Token.str m.1).Reads) ∧ List.Forall₂ _ members named := by
        rw [← List.forall₂_and_left, ← List.forall₂_and_left]
        simp only [hmember]
    _ ↔ _ := and_iff_right h

theorem printed_arr_iff {items : List Spelling} :
    (arr items).Printed ↔ ∀ x ∈ items, x.Printed := by
  have hrest : ∀ items, (∀ t ∈ itemTokens items, t.Reads) ↔ ∀ x ∈ items, x.Printed := by
    intro items
    induction items with
    | nil => simp [itemTokens, reads_closeList]
    | cons x items ih =>
      simp only [itemTokens, List.cons_append, List.forall_mem_cons, List.forall_mem_append, ih,
        reads_comma, true_and, Printed]
  rw [← hrest]
  cases items with
  | nil => simp [Printed, tokens, itemTokens, reads_openList]
  | cons x items =>
    simp only [Printed, tokens, itemTokens, List.cons_append, List.forall_mem_cons,
      reads_openList, reads_comma, true_and]

theorem record?_eq_some_iff (h : s.Printed) :
    s.record? names = some fields ↔ s.Gives names fields := by
  cases s with
  | arr items =>
    rw [record?, Option.ite_none_right_eq_some, Option.some.injEq]
    constructor
    · rintro ⟨hle, rfl⟩
      exact .items (Nat.add_sub_cancel' hle)
    · rintro ⟨hlength⟩
      rw [← hlength, Nat.add_sub_cancel_left]
      exact ⟨Nat.le_add_right _ _, rfl⟩
  | obj members =>
    have hreads : ∀ m ∈ members, (Token.str m.1).Reads :=
      fun m hm => (printed_obj_iff.mp h m hm).1
    have hfields : ∀ named, names.mapM (field? named) = some fields ↔
        List.Forall₂ (Under named) names fields := by
      intro named
      simp only [mapM_eq_some_iff, field?_eq_some_iff]
    rw [record?, Option.bind_eq_bind, Option.bind_eq_some_iff]
    constructor
    · rintro ⟨named, hnamed, hread⟩
      exact .members ((namedMembers?_eq_some_iff hreads).mp hnamed) ((hfields named).mp hread)
    · intro hgives
      cases hgives with
      | members hnamed hunder =>
        exact ⟨_, (namedMembers?_eq_some_iff hreads).mpr hnamed, (hfields _).mpr hunder⟩
  | _ =>
    constructor
    · intro hread
      cases hread
    · intro hgives
      cases hgives

theorem bind_record?_eq_some_iff (h : s.Printed) {read : List (Option Spelling) → Option α}
    {a : α} : (s.record? names).bind read = some a ↔
      ∃ fields, s.Gives names fields ∧ read fields = some a := by
  rw [Option.bind_eq_some_iff]
  exact exists_congr fun fields => and_congr_left fun _ => record?_eq_some_iff h

theorem gives_spelling (members : List (String × Json)) (h : (Dict.keys members).Nodup)
    (names : List String) : (Json.obj members).spelling.Gives names
      (names.map fun name => (Dict.get? members name).map Json.spelling) :=
  (record?_eq_some_iff (Json.printed_spelling _)).mp (record?_spelling members h names)

theorem forall_mem_of_forall₂ {α β : Type} {R : α → β → Prop} {p : β → Prop} {as : List α}
    {bs : List β} (h : List.Forall₂ R as bs) (hp : ∀ a ∈ as, ∀ b, R a b → p b) : ∀ b ∈ bs, p b := by
  induction h with
  | nil => exact fun b hb => absurd hb List.not_mem_nil
  | cons hab _ ih =>
    obtain ⟨ha, has⟩ := List.forall_mem_cons.mp hp
    exact List.forall_mem_cons.mpr ⟨ha _ hab, ih has⟩

theorem printed_of_gives (h : s.Printed) (hgives : s.Gives names fields) :
    ∀ f ∈ fields, ∀ v, f = some v → v.Printed := by
  cases hgives with
  | items =>
    intro f hf v hv
    subst hv
    rcases List.mem_append.mp hf with hv | hv
    · obtain ⟨x, hx, ⟨⟩⟩ := List.mem_map.mp hv
      exact printed_arr_iff.mp h v hx
    · cases (List.mem_replicate.mp hv).2
  | members hnames hfields =>
    have hnamed := forall_mem_of_forall₂ (p := fun n => n.2.Printed) hnames
      fun m hm n hmn => hmn.2 ▸ (printed_obj_iff.mp h m hm).2
    refine forall_mem_of_forall₂ hfields fun name _ f hunder v hv => ?_
    cases hunder with
    | nothing => cases hv
    | single he =>
      cases hv
      exact hnamed (name, v) (he ▸ List.mem_append_right _ List.mem_cons_self)

end TokenKeeper.Json.Spelling
