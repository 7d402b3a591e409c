import Mathlib.Data.List.Forall2
import TokenKeeper.Host
import TokenKeeper.Proofs.RDropWhile
import TokenKeeper.Text.Utf8

/-!
# Hosts and their subdomains

A host is a name, or labels in front of a dot and the name, where the case of ASCII letters does not
count and dots at the end of the host do not either. The test cuts the host where the name would
start; that it finds all of these hosts and no others is `matchesHost_iff`, and `matchesHost_exact`
says the same of the characters one by one. The cut is never made inside a character
(`cutAt?_eq_some_iff`).
-/
namespace TokenKeeper.Host

variable {host name h : List Char}

theorem sameLetters_iff : sameLetters host name = true ↔
    host.map Char.toLower = name.map Char.toLower :=
  beq_iff_eq

/-- A name, or labels in front of it. -/
inductive Under (name : List Char) : List Char → Prop
  | same {host : List Char} (h : sameLetters host name = true) : Under name host
  | subdomain {labels rest : List Char} (hlabels : labels ≠ [])
    (h : sameLetters rest name = true) : Under name (labels ++ '.' :: rest)

/-- A host without the dots at its end is under a name. -/
def Within (name host : List Char) : Prop :=
  ∃ h dots, host = h ++ List.replicate dots '.' ∧ h.getLast? ≠ some '.' ∧ Under name h

/-! ### Dots at the end -/

theorem trimDots_eq (cs : List Char) : trimDots cs = cs.rdropWhile (· == '.') := rfl

theorem trimDots_append_dots (cs : List Char) (dots : Nat) :
    trimDots (cs ++ List.replicate dots '.') = trimDots cs := by
  rw [trimDots_eq, trimDots_eq]
  exact rdropWhile_append (fun _ hc => beq_iff_eq.mpr (List.eq_of_mem_replicate hc)) cs

theorem trimDots_append (hlast : h.getLast? ≠ some '.') (dots : Nat) :
    trimDots (h ++ List.replicate dots '.') = h := by
  refine (trimDots_append_dots h dots).trans (rdropWhile_of_last fun c hc => ?_)
  refine beq_eq_false_iff_ne.mpr fun hdot => hlast ?_
  rw [← hdot]
  exact hc

theorem getLast?_trimDots (cs : List Char) : (trimDots cs).getLast? ≠ some '.' :=
  fun hlast => absurd (last_of_rdropWhile (p := (· == '.')) hlast) (by decide)

theorem exists_dots (cs : List Char) : ∃ dots, cs = trimDots cs ++ List.replicate dots '.' := by
  obtain ⟨back, hcs, hback⟩ := exists_append_rdropWhile (· == '.') cs
  refine ⟨back.length, ?_⟩
  rw [← List.eq_replicate_of_mem fun c hc => beq_iff_eq.mp (hback c hc)]
  exact hcs

theorem within_iff : Within name host ↔ Under name (trimDots host) := by
  refine ⟨?_, fun hunder => ?_⟩
  · rintro ⟨h, dots, rfl, hlast, hunder⟩
    rwa [trimDots_append hlast]
  · obtain ⟨dots, hdots⟩ := exists_dots host
    exact ⟨trimDots host, dots, hdots, getLast?_trimDots host, hunder⟩

/-! ### Letters in either case -/

def Capital (upper lower : Char) : Prop :=
  'A' ≤ upper ∧ upper ≤ 'Z' ∧ lower.toNat = upper.toNat + 32

def SameLetter (a b : Char) : Prop :=
  a = b ∨ Capital a b ∨ Capital b a

def SameText (a b : List Char) : Prop :=
  List.Forall₂ SameLetter a b

theorem toNat_toLower (c : Char) :
    c.toLower.toNat = if 'A' ≤ c ∧ c ≤ 'Z' then c.toNat + 32 else c.toNat := by
  unfold Char.toLower
  split
  next h =>
    have hcapital : 'A' ≤ c ∧ c ≤ 'Z' := h
    have hsmall : c.val.toNat ≤ 90 := UInt32.le_iff_toNat_le.mp h.2
    have hshift : ('a'.val - 'A'.val).toNat = 32 := rfl
    rw [if_pos hcapital]
    simp only [Char.toNat, UInt32.toNat_add, hshift]
    omega
  next h => exact (if_neg h).symm

theorem toLower_eq_iff (a b : Char) : a.toLower = b.toLower ↔ SameLetter a b := by
  have hcapital (upper lower : Char) : Capital upper lower ↔
      65 ≤ upper.toNat ∧ upper.toNat ≤ 90 ∧ lower.toNat = upper.toNat + 32 := Iff.rfl
  have hrange (c : Char) : ('A' ≤ c ∧ c ≤ 'Z') ↔ 65 ≤ c.toNat ∧ c.toNat ≤ 90 := Iff.rfl
  rw [SameLetter, hcapital, hcapital, ← Char.toNat_inj, ← Char.toNat_inj, toNat_toLower,
    toNat_toLower]
  simp only [hrange]
  split <;> split <;> omega

theorem sameLetters_iff_sameText : sameLetters host name = true ↔ SameText host name := by
  rw [sameLetters_iff, ← List.forall₂_eq_eq_eq, List.forall₂_map_left_iff,
    List.forall₂_map_right_iff]
  simp only [toLower_eq_iff, SameText]

/-! ### Bytes -/

@[simp] theorem byteLength_cons (c : Char) (cs : List Char) :
    byteLength (c :: cs) = c.utf8Size + byteLength cs := rfl

@[simp] theorem byteLength_append (front rest : List Char) :
    byteLength (front ++ rest) = byteLength front + byteLength rest := by
  induction front with
  | nil => exact (Nat.zero_add _).symm
  | cons c front ih => rw [List.cons_append, byteLength_cons, ih, byteLength_cons, Nat.add_assoc]

theorem byteLength_pos (h : host ≠ []) : 0 < byteLength host := by
  obtain ⟨c, rest, rfl⟩ := List.exists_cons_of_ne_nil h
  exact Nat.add_pos_left c.utf8Size_pos _

theorem byteLength_eq_utf8ByteSize (cs : List Char) :
    byteLength cs = (String.ofList cs).utf8ByteSize := by
  induction cs with
  | nil => rfl
  | cons c cs ih =>
    have hcons : String.ofList (c :: cs) = String.singleton c ++ String.ofList cs :=
      @String.ofList_append [c] cs
    rw [hcons, String.utf8ByteSize_append, String.utf8ByteSize_singleton, byteLength_cons, ih]

theorem length_encode_ofList (cs : List Char) :
    (Utf8.encode (String.ofList cs)).length = byteLength cs := by
  have hencode (s : String) : (Utf8.encode s).length = s.utf8ByteSize := by simp [Utf8.encode]
  rw [hencode, byteLength_eq_utf8ByteSize]

theorem utf8Size_toLower (c : Char) : c.toLower.utf8Size = c.utf8Size := by
  have hlower := toNat_toLower c
  by_cases h : 'A' ≤ c ∧ c ≤ 'Z'
  · have hone (d : Char) (hd : d.toNat ≤ 127) : d.utf8Size = 1 :=
      Char.utf8Size_eq_one_iff.mpr (UInt32.le_iff_toNat_le.mpr hd)
    have hsmall : c.toNat ≤ 90 := h.2
    rw [if_pos h] at hlower
    rw [hone c (by omega), hone c.toLower (by omega)]
  · rw [if_neg h, Char.toNat_inj] at hlower
    rw [hlower]

theorem byteLength_of_sameLetters (h : sameLetters host name = true) :
    byteLength host = byteLength name := by
  have hlower (cs : List Char) : byteLength (cs.map Char.toLower) = byteLength cs := by
    induction cs with
    | nil => rfl
    | cons c cs ih => rw [List.map_cons, byteLength_cons, utf8Size_toLower, ih, byteLength_cons]
  rw [← hlower host, sameLetters_iff.mp h, hlower]

theorem cutAt?_eq_some_iff {n : Nat} {cs front rest : List Char} :
    cutAt? n cs = some (front, rest) ↔ cs = front ++ rest ∧ byteLength front = n := by
  -- By the characters that are taken: each has to fit in the bytes that are left.
  fun_induction cutAt? n cs generalizing front with
  | case1 cs =>
    constructor
    · rintro ⟨⟩
      exact ⟨rfl, rfl⟩
    · rintro ⟨rfl, hlength⟩
      cases front with
      | nil => rfl
      | cons c front => exact absurd hlength (byteLength_pos (List.cons_ne_nil c front)).ne'
  | case2 n =>
    refine iff_of_false nofun ?_
    rintro ⟨hnil, hlength⟩
    rw [(List.append_eq_nil_iff.mp hnil.symm).1] at hlength
    cases hlength
  | case3 n c cs hfits ih =>
    rw [Option.map_eq_some_iff]
    constructor
    · rintro ⟨⟨front, rest⟩, hcut, ⟨⟩⟩
      obtain ⟨rfl, hlength⟩ := ih.mp hcut
      exact ⟨rfl, by rw [byteLength_cons, hlength, Nat.add_sub_of_le hfits]⟩
    · rintro ⟨hcs, hlength⟩
      cases front with
      | nil => cases hlength
      | cons d front =>
        cases hcs
        rw [byteLength_cons] at hlength
        exact ⟨(front, rest), ih.mpr ⟨rfl, by omega⟩, rfl⟩
  | case4 n c cs hfits =>
    refine iff_of_false nofun ?_
    rintro ⟨hcs, hlength⟩
    cases front with
    | nil => cases hlength
    | cons d front =>
      cases hcs
      rw [byteLength_cons] at hlength
      omega

example : cutAt? 2 "aé".toList = none := by decide

/-! ### Labels in front of the name -/

theorem cutAt?_name (front : List Char) {rest : List Char} (h : sameLetters rest name = true) :
    cutAt? (byteLength (front ++ rest) - byteLength name) (front ++ rest) = some (front, rest) := by
  refine cutAt?_eq_some_iff.mpr ⟨rfl, ?_⟩
  rw [byteLength_append, byteLength_of_sameLetters h, Nat.add_sub_cancel]

theorem isSubdomain_append (front : List Char) {rest : List Char}
    (h : sameLetters rest name = true) :
    isSubdomain (front ++ rest) name = (1 < byteLength front && front.getLast? == some '.') := by
  have hlong : ¬ byteLength (front ++ rest) < byteLength name := by
    rw [byteLength_append, byteLength_of_sameLetters h]
    omega
  rw [isSubdomain, if_neg hlong, cutAt?_name front h]
  simp only [h, Bool.and_true]

theorem endsLabel_iff (front : List Char) :
    (decide (1 < byteLength front) && front.getLast? == some '.') = true ↔
      ∃ labels, labels ≠ [] ∧ front = labels ++ ['.'] := by
  rw [Bool.and_eq_true, decide_eq_true_eq, beq_iff_eq, List.getLast?_eq_some_iff]
  constructor
  · rintro ⟨hlength, labels, rfl⟩
    refine ⟨labels, ?_, rfl⟩
    rintro rfl
    exact absurd hlength (by decide)
  · rintro ⟨labels, hlabels, rfl⟩
    refine ⟨?_, labels, rfl⟩
    have hpos := byteLength_pos hlabels
    have hdot : byteLength ['.'] = 1 := rfl
    rw [byteLength_append, hdot]
    omega

theorem isSubdomain_iff : isSubdomain host name = true ↔ ∃ labels rest, labels ≠ [] ∧
    host = labels ++ '.' :: rest ∧ sameLetters rest name = true := by
  refine ⟨fun h => ?_, ?_⟩
  · unfold isSubdomain at h
    split at h
    · cases h
    split at h
    next front rest hcut =>
      rw [Bool.and_eq_true, endsLabel_iff] at h
      obtain ⟨⟨labels, hlabels, rfl⟩, hrest⟩ := h
      obtain ⟨rfl, -⟩ := cutAt?_eq_some_iff.mp hcut
      exact ⟨labels, rest, hlabels, (List.append_cons ..).symm, hrest⟩
    next => cases h
  · rintro ⟨labels, rest, hlabels, rfl, hrest⟩
    rw [List.append_cons, isSubdomain_append _ hrest]
    exact (endsLabel_iff _).mpr ⟨labels, hlabels, rfl⟩

theorem under_iff : Under name host ↔
    sameLetters host name = true ∨ isSubdomain host name = true := by
  rw [isSubdomain_iff]
  refine ⟨fun h => ?_, ?_⟩
  · cases h with
    | same h => exact Or.inl h
    | subdomain hlabels h => exact Or.inr ⟨_, _, hlabels, rfl, h⟩
  · rintro (h | ⟨labels, rest, hlabels, rfl, h⟩)
    · exact .same h
    · exact .subdomain hlabels h

theorem matchesHost_iff {host apiHost : String} :
    matchesHost host apiHost = true ↔ Within apiHost.toList host.toList := by
  rw [within_iff, under_iff, matchesHost, Bool.or_eq_true]

example : Within "api.example.org".toList "Eu.API.example.org..".toList :=
  matchesHost_iff.mp (by decide)

theorem under_iff_sameText : Under name host ↔ SameText host name ∨
    ∃ labels rest, labels ≠ [] ∧ host = labels ++ '.' :: rest ∧ SameText rest name := by
  simp only [under_iff, isSubdomain_iff, sameLetters_iff_sameText]

theorem under_append (front : List Char) {rest : List Char} (h : SameText rest name) :
    Under name (front ++ rest) ↔ front = [] ∨ ∃ labels, labels ≠ [] ∧ front = labels ++ ['.'] := by
  have hrest := sameLetters_iff_sameText.mpr h
  rw [under_iff, isSubdomain_append front hrest, endsLabel_iff]
  refine or_congr_left ⟨fun hsame => ?_, ?_⟩
  · have hlength := (sameLetters_iff_sameText.mp hsame).length_eq
    rw [List.length_append, h.length_eq, Nat.add_eq_right] at hlength
    exact List.length_eq_zero_iff.mp hlength
  · rintro rfl
    exact hrest

/-! ### Two ways to write a host -/

theorem sameText_iff : SameText host name ↔ host.map Char.toLower = name.map Char.toLower :=
  sameLetters_iff_sameText.symm.trans sameLetters_iff

theorem toLower_eq_dot_iff {c : Char} : c.toLower = '.' ↔ c = '.' := by
  constructor
  · intro h
    rcases (toLower_eq_iff c '.').mp (h.trans rfl) with heq | ⟨hc, -, hdot⟩ | ⟨hdot, -⟩
    · exact heq
    · have hlarge : 65 ≤ c.toNat := hc
      have hsmall : 46 = c.toNat + 32 := hdot
      omega
    · exact absurd hdot (by decide)
  · rintro rfl
    rfl

/-- The same host up to the case of ASCII letters and to dots at its end. -/
def SameHost (host other : List Char) : Prop :=
  ∃ h h' dots dots', host = h ++ List.replicate dots '.' ∧ other = h' ++ List.replicate dots' '.' ∧
    SameText h h'

theorem trimDots_map_toLower (cs : List Char) :
    trimDots (cs.map Char.toLower) = (trimDots cs).map Char.toLower := by
  have hdot : ((fun c => c == '.') ∘ Char.toLower) = fun c => c == '.' := by
    funext c
    exact Bool.eq_iff_iff.mpr (by simp [toLower_eq_dot_iff])
  rw [trimDots, ← List.map_reverse, List.dropWhile_map, hdot, ← List.map_reverse, trimDots]

theorem SameHost.trimDots {other : List Char} (h : SameHost host other) :
    SameText (trimDots host) (trimDots other) := by
  obtain ⟨h, h', dots, dots', rfl, rfl, hsame⟩ := h
  rw [trimDots_append_dots, trimDots_append_dots, sameText_iff, ← trimDots_map_toLower,
    sameText_iff.mp hsame, trimDots_map_toLower]

theorem Under.congr {host' name' : List Char} (hhost : SameText host host')
    (hname : SameText name name') (h : Under name host) : Under name' host' := by
  rw [sameText_iff] at hhost hname
  cases h with
  | same h =>
    exact .same (sameLetters_iff.mpr (hhost.symm.trans ((sameLetters_iff.mp h).trans hname)))
  | subdomain hlabels h =>
    rw [List.map_append, List.map_cons] at hhost
    obtain ⟨labels', rest', rfl, hfront, hback⟩ := List.map_eq_append_iff.mp hhost.symm
    obtain ⟨dot, rest', rfl, hdot, hrest⟩ := List.map_eq_cons_iff.mp hback
    cases toLower_eq_dot_iff.mp (hdot.trans rfl)
    refine .subdomain ?_ (sameLetters_iff.mpr (hrest.trans ((sameLetters_iff.mp h).trans hname)))
    rintro rfl
    exact hlabels (List.map_eq_nil_iff.mp hfront.symm)

theorem SameText.symm (h : SameText host name) : SameText name host :=
  sameText_iff.mpr (sameText_iff.mp h).symm

theorem matchesHost_congr {host other apiHost api : String}
    (hhost : SameHost host.toList other.toList) (hname : SameText apiHost.toList api.toList) :
    matchesHost other api = matchesHost host apiHost := by
  rw [Bool.eq_iff_iff, matchesHost_iff, matchesHost_iff, within_iff, within_iff]
  exact ⟨.congr hhost.trimDots.symm hname.symm, .congr hhost.trimDots hname⟩

/-! ### Names that end in a dot -/

theorem getLast?_of_sameText (h : SameText host name) (hdot : name.getLast? = some '.') :
    host.getLast? = some '.' := by
  have hlast := congrArg List.getLast? (sameText_iff.mp h)
  rw [List.getLast?_map, List.getLast?_map, hdot, Option.map_some, Option.map_eq_some_iff] at hlast
  obtain ⟨c, hc, hlower⟩ := hlast
  rw [hc, toLower_eq_dot_iff.mp (hlower.trans rfl)]

theorem not_matchesHost_of_dot {apiHost : String} (hdot : apiHost.toList.getLast? = some '.')
    (host : String) : matchesHost host apiHost = false := by
  rw [Bool.eq_false_iff]
  intro hmatch
  -- The host has lost its dots, so what matches it cannot end in one.
  refine getLast?_trimDots host.toList ?_
  rcases under_iff_sameText.mp (within_iff.mp (matchesHost_iff.mp hmatch)) with
    hsame | ⟨labels, rest, -, heq, hrest⟩
  · exact getLast?_of_sameText hsame hdot
  · obtain ⟨front, rfl⟩ := List.getLast?_eq_some_iff.mp (getLast?_of_sameText hrest hdot)
    exact List.getLast?_eq_some_iff.mpr ⟨labels ++ '.' :: front, by rw [heq]; simp⟩

theorem matchesHost_self_iff (apiHost : String) :
    matchesHost apiHost apiHost = true ↔ apiHost.toList.getLast? ≠ some '.' := by
  constructor
  · intro hmatch hdot
    rw [not_matchesHost_of_dot hdot] at hmatch
    cases hmatch
  · intro hdot
    have htrim : trimDots apiHost.toList = apiHost.toList := by
      simpa using trimDots_append hdot 0
    rw [matchesHost_iff, within_iff, htrim]
    exact .same (sameLetters_iff.mpr rfl)

/-- A host matches if, without the dots at its end, it is the name up to the case of ASCII letters,
or labels, a dot and the name. The characters of the name at the end are not enough without labels
and a dot before them, nor are those at the start. A cut never falls inside a character. -/
theorem matchesHost_exact (host apiHost : String) : ∃ h dots,
    host.toList = h ++ List.replicate dots '.' ∧ h.getLast? ≠ some '.' ∧
    (matchesHost host apiHost = true ↔ SameText h apiHost.toList ∨
      ∃ labels rest, labels ≠ [] ∧ h = labels ++ '.' :: rest ∧ SameText rest apiHost.toList) ∧
    (∀ front rest, h = front ++ rest → SameText rest apiHost.toList →
      (matchesHost host apiHost = true ↔
        front = [] ∨ ∃ labels, labels ≠ [] ∧ front = labels ++ ['.'])) ∧
    (∀ front rest, h = front ++ rest → rest ≠ [] → SameText front apiHost.toList →
      matchesHost host apiHost = true →
      ∃ labels name, labels ≠ [] ∧ h = labels ++ '.' :: name ∧ SameText name apiHost.toList) ∧
    ∀ n front rest, cutAt? n h = some (front, rest) ↔
      h = front ++ rest ∧ (Utf8.encode (String.ofList front)).length = n := by
  obtain ⟨dots, hdots⟩ := exists_dots host.toList
  have hmatches : matchesHost host apiHost = true ↔
      Under apiHost.toList (trimDots host.toList) := matchesHost_iff.trans within_iff
  refine ⟨trimDots host.toList, dots, hdots, getLast?_trimDots _, ?_, ?_, ?_, ?_⟩
  · exact hmatches.trans under_iff_sameText
  · intro front rest hcut hname
    rw [hmatches, hcut]
    exact under_append front hname
  · intro front rest hcut hne hname hmatch
    refine (under_iff_sameText.mp (hmatches.mp hmatch)).resolve_left fun hsame => hne ?_
    have hlength := hsame.length_eq
    rw [hcut, List.length_append, hname.length_eq, Nat.add_eq_left] at hlength
    exact List.length_eq_zero_iff.mp hlength
  · intro n front rest
    rw [length_encode_ofList]
    exact cutAt?_eq_some_iff

end TokenKeeper.Host
