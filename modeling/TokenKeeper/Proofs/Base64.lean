import TokenKeeper.Base64

/-!
# Base64 reads back what it writes

Written text holds symbols of the alphabet and padding only, all of them single bytes, in groups of
four. Reading takes the groups in turn; the last one may be padded, and the bits that the padding
cuts off are zero. So decoding the text of any bytes gives these bytes.
-/
namespace TokenKeeper

namespace Utf8

theorem encode_ofList_of_ascii {cs : List Char} (h : ∀ c ∈ cs, c.val ≤ 127) :
    encode (String.ofList cs) = cs.map fun c => c.val.toUInt8 := by
  have hsize : ∀ c ∈ cs, String.utf8EncodeChar c = [c.val.toUInt8] := by
    intro c hc
    exact String.utf8EncodeChar_eq_singleton (Char.utf8Size_eq_one_iff.mpr (h c hc))
  show (String.ofList cs).toByteArray.data.toList = _
  rw [String.toByteArray_ofList, List.utf8Encode, List.toList_data_toByteArray]
  clear h
  induction cs with
  | nil => rfl
  | cons c cs ih =>
    rw [List.flatMap_cons, hsize c List.mem_cons_self, ih fun d hd =>
      hsize d (List.mem_cons_of_mem _ hd)]
    rfl

end Utf8

namespace Base64

def symbolByte (n : Nat) : UInt8 := (symbol n).val.toUInt8

theorem symbol_ascii {n : Nat} (h : n < 64) : (symbol n).val ≤ 127 := by
  revert n
  decide

theorem value?_symbolByte {n : Nat} (h : n < 64) : value? (symbolByte n) = some n := by
  revert n
  decide

theorem symbolByte_ne_pad {n : Nat} (h : n < 64) : (symbolByte n != pad) = true := by
  revert n
  decide

def encodedBytes (bytes : Bytes) : Bytes :=
  (encodeChars bytes).map fun c => c.val.toUInt8

def sixBits (n : Nat) : List Nat := [n / 262144, n / 4096 % 64, n / 64 % 64, n % 64]

theorem group_eq (n : Nat) : group n = (sixBits n).map symbol := rfl

theorem sixBits_lt {n : Nat} (h : n < 16777216) : ∀ m ∈ sixBits n, m < 64 := by
  intro m hm
  simp only [sixBits, List.mem_cons, List.not_mem_nil, or_false] at hm
  omega

theorem encodeChars_ascii (bytes : Bytes) : ∀ c ∈ encodeChars bytes, c.val ≤ 127 := by
  have hgroup : ∀ n < 16777216, ∀ c ∈ group n, c.val ≤ 127 := by
    intro n hn c hc
    obtain ⟨m, hm, rfl⟩ := List.mem_map.mp (group_eq n ▸ hc)
    exact symbol_ascii (sixBits_lt hn m hm)
  fun_induction encodeChars bytes with
  | case1 a b c rest ih =>
    intro x hx
    rcases List.mem_append.mp hx with hx | hx
    · have := a.toNat_lt; have := b.toNat_lt; have := c.toNat_lt
      exact hgroup _ (by omega) x hx
    · exact ih x hx
  | case2 a b =>
    intro x hx
    rcases List.mem_append.mp hx with hx | hx
    · have := a.toNat_lt; have := b.toNat_lt
      exact hgroup _ (by omega) x (List.mem_of_mem_take hx)
    · rw [List.mem_singleton.mp hx]; decide
  | case3 a =>
    intro x hx
    rcases List.mem_append.mp hx with hx | hx
    · have := a.toNat_lt
      exact hgroup _ (by omega) x (List.mem_of_mem_take hx)
    · have hx : x = '=' := by simpa using hx
      rw [hx]; decide
  | case4 => intro x hx; cases hx

theorem encode_bytes (bytes : Bytes) : Utf8.encode (encode bytes) = encodedBytes bytes :=
  Utf8.encode_ofList_of_ascii (encodeChars_ascii bytes)

theorem length_encodedBytes (bytes : Bytes) : (encodedBytes bytes).length % 4 = 0 := by
  rw [encodedBytes, List.length_map]
  fun_induction encodeChars bytes with
  | case1 a b c rest ih =>
    rw [List.length_append]
    simp only [group, List.length_cons, List.length_nil]
    omega
  | case2 a b => simp [group]
  | case3 a => simp [group]
  | case4 => rfl

/-! ### Reading groups -/

theorem values_symbols (offset : Nat) {ns : List Nat} (h : ∀ n ∈ ns, n < 64) :
    values offset (ns.map symbolByte) = .ok ns := by
  induction ns generalizing offset with
  | nil => rfl
  | cons n ns ih =>
    rw [List.map_cons, values, value?_symbolByte (h n List.mem_cons_self)]
    simp only []
    rw [ih _ fun m hm => h m (List.mem_cons_of_mem _ hm)]
    rfl

theorem threeBytes_sixBits (a b c : UInt8) :
    threeBytes ((a.toNat * 65536 + b.toNat * 256 + c.toNat) / 262144)
      ((a.toNat * 65536 + b.toNat * 256 + c.toNat) / 4096 % 64)
      ((a.toNat * 65536 + b.toNat * 256 + c.toNat) / 64 % 64)
      ((a.toNat * 65536 + b.toNat * 256 + c.toNat) % 64) = [a, b, c] := by
  have ha := a.toNat_lt
  have hb := b.toNat_lt
  have hc := c.toNat_lt
  have h1 : UInt8.ofNat ((a.toNat * 65536 + b.toNat * 256 + c.toNat) / 262144 * 4
      + (a.toNat * 65536 + b.toNat * 256 + c.toNat) / 4096 % 64 / 16) = a := by
    apply UInt8.toNat_inj.mp
    rw [UInt8.toNat_ofNat']
    omega
  have h2 : UInt8.ofNat ((a.toNat * 65536 + b.toNat * 256 + c.toNat) / 4096 % 64 % 16 * 16
      + (a.toNat * 65536 + b.toNat * 256 + c.toNat) / 64 % 64 / 4) = b := by
    apply UInt8.toNat_inj.mp
    rw [UInt8.toNat_ofNat']
    omega
  have h3 : UInt8.ofNat ((a.toNat * 65536 + b.toNat * 256 + c.toNat) / 64 % 64 % 4 * 64
      + (a.toNat * 65536 + b.toNat * 256 + c.toNat) % 64) = c := by
    apply UInt8.toNat_inj.mp
    rw [UInt8.toNat_ofNat']
    omega
  rw [threeBytes, h1, h2, h3]

theorem span_symbols {ns : List Nat} (h : ∀ n ∈ ns, n < 64)
    (padding : Bytes) (hpad : padding = [] ∨ padding = [pad] ∨ padding = [pad, pad]) :
    (ns.map symbolByte ++ padding).takeWhile (· != pad) = ns.map symbolByte ∧
      (ns.map symbolByte ++ padding).dropWhile (· != pad) = padding := by
  have hsymbols : ∀ b ∈ ns.map symbolByte, (b != pad) = true := by
    intro b hb
    obtain ⟨n, hn, rfl⟩ := List.mem_map.mp hb
    exact symbolByte_ne_pad (h n hn)
  rw [List.takeWhile_append_of_pos hsymbols, List.dropWhile_append_of_pos hsymbols]
  rcases hpad with rfl | rfl | rfl <;> simp

theorem decodeLast_four (offset : Nat) {w x y z : Nat} (h : ∀ n ∈ [w, x, y, z], n < 64) :
    decodeLast offset ([w, x, y, z].map symbolByte) = .ok (threeBytes w x y z) := by
  obtain ⟨ht, hd⟩ := span_symbols h [] (Or.inl rfl)
  rw [List.append_nil] at ht hd
  rw [decodeLast, ht, hd, values_symbols offset h]
  rfl

theorem decodeLast_three (offset : Nat) {w x y : Nat} (h : ∀ n ∈ [w, x, y], n < 64)
    (hy : y % 4 = 0) :
    decodeLast offset ([w, x, y].map symbolByte ++ [pad]) = .ok ((threeBytes w x y 0).take 2) := by
  obtain ⟨ht, hd⟩ := span_symbols h [pad] (Or.inr (Or.inl rfl))
  rw [decodeLast, ht, hd, values_symbols offset h]
  simp only [List.map_cons, List.map_nil, List.isEmpty_cons, Bool.not_false, List.length_cons,
    List.length_nil, List.any_cons, List.any_nil, bne_self_eq_false, Bool.or_self, Bool.or_false,
    Bool.true_and]
  show (if y % 4 ≠ 0 then _ else _) = _
  rw [if_neg (by omega)]
  rfl

theorem decodeLast_two (offset : Nat) {w x : Nat} (h : ∀ n ∈ [w, x], n < 64) (hx : x % 16 = 0) :
    decodeLast offset ([w, x].map symbolByte ++ [pad, pad]) = .ok [.ofNat (w * 4 + x / 16)] := by
  obtain ⟨ht, hd⟩ := span_symbols h [pad, pad] (Or.inr (Or.inr rfl))
  rw [decodeLast, ht, hd, values_symbols offset h]
  show (if x % 16 ≠ 0 then _ else _) = _
  rw [if_neg (by omega)]
  rfl

theorem decodeFrom_four (offset : Nat) {w x y z : Nat} (h : ∀ n ∈ [w, x, y, z], n < 64)
    (e : UInt8) (rest : Bytes) :
    decodeFrom offset ([w, x, y, z].map symbolByte ++ e :: rest) =
      (do return threeBytes w x y z ++ (← decodeFrom (offset + 4) (e :: rest))) := by
  have hv := values_symbols offset h
  simp only [List.map_cons, List.map_nil] at hv
  simp only [List.map_cons, List.map_nil, List.cons_append, List.nil_append, decodeFrom]
  rw [hv]
  rfl

theorem decodeFrom_encodedBytes (offset : Nat) (bytes : Bytes) :
    decodeFrom offset (encodedBytes bytes) = .ok bytes := by
  unfold encodedBytes
  fun_induction encodeChars bytes generalizing offset with
  | case1 a b c rest ih =>
    have ha := a.toNat_lt; have hb := b.toNat_lt; have hc := c.toNat_lt
    have hlt := sixBits_lt (n := a.toNat * 65536 + b.toNat * 256 + c.toNat) (by omega)
    have hthree := threeBytes_sixBits a b c
    have ih' := ih (offset + 4)
    rw [List.map_append, group_eq, List.map_map]
    cases hrest : (encodeChars rest).map fun c => c.val.toUInt8 with
    | nil =>
      have hnil : rest = [] := by
        rw [hrest] at ih'
        have : decodeFrom (offset + 4) [] = .ok [] := rfl
        rw [this] at ih'
        exact (Except.ok.inj ih').symm
      rw [List.append_nil, hnil]
      exact (decodeLast_four offset hlt).trans (congrArg Except.ok hthree)
    | cons e more =>
      rw [hrest] at ih'
      refine (decodeFrom_four offset hlt e more).trans ?_
      rw [ih', hthree]
      rfl
  | case2 a b =>
    have ha := a.toNat_lt; have hb := b.toNat_lt
    have hlt := sixBits_lt (n := a.toNat * 65536 + b.toNat * 256) (by omega)
    have hthree := threeBytes_sixBits a b 0
    refine (decodeLast_three offset (fun n hn => hlt n (List.mem_of_mem_take (i := 3) hn))
      (by omega)).trans ?_
    simp only [UInt8.toNat_zero, Nat.add_zero] at hthree
    have hzero : (a.toNat * 65536 + b.toNat * 256) % 64 = 0 := by omega
    rw [hzero] at hthree
    rw [hthree]
    rfl
  | case3 a =>
    have ha := a.toNat_lt
    have hlt := sixBits_lt (n := a.toNat * 65536) (by omega)
    refine (decodeLast_two offset (fun n hn => hlt n (List.mem_of_mem_take (i := 2) hn))
      (by omega)).trans ?_
    have hbyte : UInt8.ofNat
        (a.toNat * 65536 / 262144 * 4 + a.toNat * 65536 / 4096 % 64 / 16) = a := by
      apply UInt8.toNat_inj.mp
      rw [UInt8.toNat_ofNat']
      omega
    rw [hbyte]
  | case4 => rfl

theorem decode_encode (bytes : Bytes) : decode (encode bytes) = .ok bytes := by
  have hlen := length_encodedBytes bytes
  have hstray : strayEnd? (encodedBytes bytes) = none := by
    unfold strayEnd?
    split
    · rw [if_neg (by omega)]
    · rfl
  rw [decode, encode_bytes, hstray]
  exact decodeFrom_encodedBytes 0 bytes

end Base64
end TokenKeeper
