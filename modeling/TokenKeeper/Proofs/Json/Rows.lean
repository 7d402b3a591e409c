import TokenKeeper.Proofs.Json.Merge

/-!
# Names in rows

The first text of a row lists its names in order, so that a name comes before all those that a NUL
cuts short to it. Patches keep it so. Hence the first member of a label, which a database finds, is
the one that a reader of the whole row finds under the name.
-/
namespace TokenKeeper

open Json (escaped Glyph Spelling)

namespace Json.Spelling

variable {ms : List (List Glyph × Spelling)} {es : List (String × Json)} {depth : Nat}
  {name : String} {v : Json}

theorem zero_mem_label {spelled : List Glyph} {s : String} (h : text? spelled = some s) :
    0 ∈ label spelled ↔ '\x00' ∈ s.toList := by
  rw [label_of_text? h, List.mem_map]
  refine ⟨fun ⟨c, hc, hzero⟩ => ?_, fun h => ⟨'\x00', h, rfl⟩⟩
  rwa [Char.toNat_inj.mp (show c.toNat = ('\x00').toNat from hzero)] at hc

theorem readName_ne_of_lt {a b : String} (h : a < b) (hb : NulFree b) :
    readName a ≠ readName b := by
  intro he
  rw [readName_of_nulFree hb] at he
  have hprefix : b.toList <+: a.toList := he ▸ List.takeWhile_prefix _
  exact hprefix.le (String.lt_iff.mp h)

theorem uniqueLabels_memberSpellings {fields : Document} (h : Dict.Ordered fields) :
    UniqueLabels (memberSpellings fields) := by
  rw [UniqueLabels, memberSpellings_eq, List.pairwise_map]
  refine List.Pairwise.imp (fun hlt hnul => ?_) h
  rw [zero_mem_label (text?_escaped _)] at hnul
  rw [sameLabel_of_text? (text?_escaped _) (text?_escaped _)]
  exact decide_eq_false (readName_ne_of_lt hlt hnul)

/-! ### What is found under a name -/

theorem sameLabel_of_uniqueLabels {m : List Glyph × Spelling} (h : UniqueLabels (m :: ms))
    (hes : entries? depth ms = some es) (hname : NulFree name) (hmem : name ∈ Dict.keys es) :
    ∃ k, text? k = some name ∧ sameLabel m.1 k = false := by
  obtain ⟨e, he, rfl⟩ := List.mem_map.mp hmem
  obtain ⟨m', hm', hk, -⟩ := Row.mem_of_entries? hes he
  refine ⟨m'.1, hk, (List.pairwise_cons.mp h).1 m' hm' ?_⟩
  rwa [zero_mem_label hk]

theorem once_of_uniqueLabels (h : UniqueLabels ms) (hes : entries? depth ms = some es)
    (hname : NulFree name) : es.Pairwise fun a b => b.1 = name → a.1 ≠ name := by
  induction ms generalizing es with
  | nil =>
    cases hes
    exact .nil
  | cons m ms ih =>
    obtain ⟨e, rest, rfl, hk, -, hrest⟩ := Row.exists_of_entries?_cons hes
    refine List.pairwise_cons.mpr ⟨fun b hb hbname he => ?_, ih (List.Pairwise.of_cons h) hrest⟩
    obtain ⟨l, hl, hlabel⟩ := sameLabel_of_uniqueLabels h hrest hname
      (hbname ▸ List.mem_map_of_mem hb)
    rw [sameLabel_of_text? hk hl, he, decide_eq_true rfl] at hlabel
    cases hlabel

theorem member?_cons (m : List Glyph × Spelling) (points : List Nat) :
    member? points (.obj (m :: ms)) =
      if labelKey (label m.1) = labelKey points then some m.2 else member? points (.obj ms) := by
  unfold member?
  change (List.find? _ (m :: ms)).map _ = if _ then _ else (List.find? _ ms).map _
  rw [List.find?_cons]
  by_cases h : labelKey (label m.1) = labelKey points
  · rw [if_pos h, beq_iff_eq.mpr h]
    rfl
  · rw [if_neg h, beq_eq_false_iff_ne.mpr h]

theorem labelKey_eq_iff {spelled : List Glyph} {s : String} (h : text? spelled = some s) :
    labelKey (label spelled) = labelKey (name.toList.map Char.toNat) ↔
      readName s = readName name := by
  have hlabel := sameLabel_of_text? h (text?_escaped name)
  rw [sameLabel, label_escaped, Bool.eq_iff_iff, beq_iff_eq, decide_eq_true_eq] at hlabel
  exact hlabel

theorem member?_of_uniqueLabels (h : UniqueLabels ms) (hes : entries? depth ms = some es)
    (hname : NulFree name) (hget : Dict.get? es name = some v) :
    ∃ x, member? (name.toList.map Char.toNat) (.obj ms) = some x ∧ x.value? depth = some v := by
  induction ms generalizing es with
  | nil =>
    cases hes
    cases hget
  | cons m ms ih =>
    obtain ⟨⟨s, u⟩, rest, rfl, hk, hx, hrest⟩ := Row.exists_of_entries?_cons hes
    rw [member?_cons, Dict.get?] at *
    by_cases hs : s = name
    · rw [if_pos hs] at hget
      cases hget
      rw [if_pos ((labelKey_eq_iff hk).mpr (congrArg readName hs))]
      exact ⟨m.2, rfl, hx⟩
    · rw [if_neg hs] at hget
      obtain ⟨l, hl, hlabel⟩ := sameLabel_of_uniqueLabels h hrest hname (Dict.mem_keys_of_get? hget)
      rw [sameLabel_of_text? hk hl, decide_eq_false_iff_not] at hlabel
      rw [if_neg fun he => hlabel ((labelKey_eq_iff hk).mp he)]
      exact ih (List.Pairwise.of_cons h) hrest hget

theorem member?_eq_none (hes : entries? depth ms = some es)
    (h : ∀ s ∈ Dict.keys es, readName s ≠ readName name) :
    member? (name.toList.map Char.toNat) (.obj ms) = none := by
  induction ms generalizing es with
  | nil => rfl
  | cons m ms ih =>
    obtain ⟨⟨s, u⟩, rest, rfl, hk, -, hrest⟩ := Row.exists_of_entries?_cons hes
    obtain ⟨hs, hkeys⟩ := List.forall_mem_cons.mp h
    rw [member?_cons, if_neg fun he => hs ((labelKey_eq_iff hk).mp he)]
    exact ih hrest hkeys

end Json.Spelling

/-! ### Rows -/

namespace Row

open Json.Spelling (NulFree member? readName)

def UniqueLabels (text : String) : Prop :=
  ∃ ms, Spelling.ofText? text = some (.obj ms) ∧ Json.Spelling.UniqueLabels ms

variable {text text' name : String} {fields doc : Document} {v : Json}

theorem uniqueLabels_compact (h : Dict.Ordered fields) : UniqueLabels (Json.obj fields).compact :=
  ⟨_, Json.ofText?_compact _, Json.Spelling.uniqueLabels_memberSpellings h⟩

theorem UniqueLabels.patched (h : UniqueLabels text)
    (hpatched : Spelling.patchText? text (Json.obj fields).compact = some text') :
    UniqueLabels text' := by
  obtain ⟨ms, htext, hlabels⟩ := h
  have hfields := Json.ofText?_compact (.obj fields)
  obtain ⟨target, htarget, hpatched⟩ := Option.bind_eq_some_iff.mp hpatched
  obtain ⟨patch, hpatch, ⟨⟩⟩ := Option.bind_eq_some_iff.mp hpatched
  cases Spelling.ofLooseText?_unique htext htarget
  cases Spelling.ofLooseText?_unique hfields hpatch
  refine ⟨_, Spelling.ofText?_minified ?_, hlabels.patchedMembers (Json.memberSpellings fields)⟩
  exact Spelling.printed_patchedMembers _ (Spelling.printed_of_ofText? htext)
    (Json.obj fields).printed_spelling

theorem exists_of_documentOfText? (h : Json.documentOfText? text = some doc) :
    ∃ ms es, Spelling.ofText? text = some (.obj ms) ∧
      Spelling.ofLooseText? text = some (.obj ms) ∧
      Spelling.entries? (Json.nestingLimit - 1) ms = some es ∧ doc = Dict.ofList es := by
  obtain ⟨es, hread, rfl⟩ := documentOfText?_iff.mp h
  obtain ⟨ms, htext, hentries⟩ := read?_eq_some hread
  exact ⟨ms, es, htext, Spelling.ofLooseText?_of_ofText? htext (depth_le_of_entries? hentries),
    hentries, rfl⟩

theorem UniqueLabels.member? (hlabels : UniqueLabels text)
    (h : Json.documentOfText? text = some doc) (hname : NulFree name)
    (hget : Dict.get? doc name = some v) :
    ∃ s x, Spelling.ofLooseText? text = some s ∧
      Spelling.member? (name.toList.map Char.toNat) s = some x ∧
      x.value? (Json.nestingLimit - 1) = some v := by
  obtain ⟨ms, es, htext, hloose, hentries, rfl⟩ := exists_of_documentOfText? h
  obtain ⟨ms', htext', hms⟩ := hlabels
  cases htext.symm.trans htext'
  rw [Dict.get?_ofList_of_once (Json.Spelling.once_of_uniqueLabels hms hentries hname)] at hget
  obtain ⟨x, hx, hvalue⟩ := Json.Spelling.member?_of_uniqueLabels hms hentries hname hget
  exact ⟨_, x, hloose, hx, hvalue⟩

end Row

end TokenKeeper
