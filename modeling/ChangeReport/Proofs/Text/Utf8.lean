import ChangeReport.Text.Utf8
import Mathlib.Data.Char

/-! Text in bytes. Exactly the bytes of a text are read as that text, so bytes that are read have
one text. -/
namespace ChangeReport.Text

theorem charOf?_eq_some_iff {least n : Nat} {c : Char} :
    charOf? least n = some c ↔ c.toNat = n ∧ least ≤ n := by
  by_cases valid : n.isValidChar
  · by_cases fits : least ≤ n
    · rw [charOf?, dif_pos valid, if_pos fits, Option.some.injEq, ← Char.toNat_inj]
      exact ⟨fun same => ⟨same.symm, fits⟩, fun same => same.1.symm⟩
    · rw [charOf?, dif_pos valid, if_neg fits]
      exact iff_of_false (Option.some_ne_none c).symm fun h => fits h.2
  · rw [charOf?, dif_neg valid]
    exact iff_of_false (Option.some_ne_none c).symm fun h => valid (h.1 ▸ c.valid)

theorem isTail_iff {b : Nat} : isTail b = true ↔ 0x80 ≤ b ∧ b < 0xC0 := by
  simp [isTail]

theorem isTail_add (n : Nat) : isTail (0x80 + n % 0x40) = true := isTail_iff.2 (by omega)

theorem toNat_lt (c : Char) : c.toNat < 0x110000 := by
  rcases c.valid with low | high
  · exact Nat.lt_trans low (by decide)
  · exact high.2

/-! ## Reading what was written -/

theorem ofBytes?_charBytes_append (c : Char) (rest : List Nat) :
    ofBytes? (charBytes c ++ rest) = (ofBytes? rest).map (c :: ·) := by
  have read {least n : Nat} (same : c.toNat = n) (fits : least ≤ n) :
      ((ofBytes? rest).bind fun cs => (charOf? least n).map (· :: cs)) =
        (ofBytes? rest).map (c :: ·) := by
    rw [charOf?_eq_some_iff.2 ⟨same, fits⟩]
    cases ofBytes? rest <;> rfl
  have bound := toNat_lt c
  unfold charBytes
  dsimp only
  split_ifs with one two three <;> rw [List.cons_append, ofBytes?.eq_def]
  · dsimp only
    rw [if_pos one]
    exact read rfl (Nat.zero_le _)
  · simp only [List.cons_append, List.nil_append, isTail_add, Bool.not_true, Bool.false_eq_true,
      if_false]
    rw [if_neg (by omega), if_pos (by omega)]
    exact read (by omega) (by omega)
  · simp only [List.cons_append, List.nil_append, isTail_add, Bool.not_true, Bool.false_eq_true,
      if_false]
    rw [if_neg (by omega), if_neg (by omega), if_pos (by omega)]
    exact read (by omega) (by omega)
  · simp only [List.cons_append, List.nil_append, isTail_add, Bool.not_true, Bool.false_eq_true,
      if_false]
    rw [if_neg (by omega), if_neg (by omega), if_neg (by omega), if_pos (by omega)]
    exact read (by omega) (by omega)

theorem ofBytes?_toBytes (cs : List Char) : ofBytes? (toBytes cs) = some cs := by
  induction cs with
  | nil => rw [toBytes, List.flatMap_nil, ofBytes?]
  | cons c cs ih =>
      rw [toBytes, List.flatMap_cons, ofBytes?_charBytes_append, ← toBytes, ih]
      rfl

/-! ## Writing what was read -/

theorem toBytes_of_bind {bytes rest : List Nat} {cs : List Char} {least n : Nat}
    (read : ((ofBytes? rest).bind fun tail => (charOf? least n).map (· :: tail)) = some cs)
    (ih : ∀ {tail}, ofBytes? rest = some tail → toBytes tail = rest)
    (spelled : ∀ c : Char, c.toNat = n → least ≤ n → charBytes c ++ rest = bytes) :
    toBytes cs = bytes := by
  obtain ⟨tail, after, more⟩ := Option.bind_eq_some_iff.1 read
  obtain ⟨c, here, rfl⟩ := Option.map_eq_some_iff.1 more
  obtain ⟨same, fits⟩ := charOf?_eq_some_iff.1 here
  rw [toBytes, List.flatMap_cons, ← toBytes, ih after, spelled c same fits]

/-- Induction by the recursion of the reader. In the cases left out it fails; in the others the
least number of a character with so many bytes tells which bytes are written. -/
theorem toBytes_of_ofBytes? {bytes : List Nat} {cs : List Char}
    (read : ofBytes? bytes = some cs) : toBytes cs = bytes := by
  fun_induction ofBytes? bytes generalizing cs with
  | case1 =>
      obtain rfl := Option.some.inj read
      rfl
  | case2 a rest one ih =>
      refine toBytes_of_bind read ih fun c same _ => ?_
      rw [charBytes, same]
      rw [if_pos one, List.singleton_append]
  | case5 a _ b rest tail two ih =>
      rw [Bool.not_eq_true', Bool.not_eq_false, isTail_iff] at tail
      refine toBytes_of_bind read ih fun c same _ => ?_
      rw [charBytes, same]
      rw [if_neg (by omega), if_pos (by omega)]
      simp only [List.cons_append, List.nil_append, List.cons.injEq, and_true]
      omega
  | case8 a _ b second _ c rest third three ih =>
      rw [Bool.not_eq_true', Bool.not_eq_false, isTail_iff] at second third
      refine toBytes_of_bind read ih fun c same _ => ?_
      rw [charBytes, same]
      rw [if_neg (by omega), if_neg (by omega), if_pos (by omega)]
      simp only [List.cons_append, List.nil_append, List.cons.injEq, and_true]
      omega
  | case11 a _ b second _ c third _ d rest fourth four ih =>
      rw [Bool.not_eq_true', Bool.not_eq_false, isTail_iff] at second third fourth
      refine toBytes_of_bind read ih fun c same _ => ?_
      rw [charBytes, same]
      rw [if_neg (by omega), if_neg (by omega), if_neg (by omega)]
      simp only [List.cons_append, List.nil_append, List.cons.injEq, and_true]
      omega
  | _ => cases read

theorem ofBytes?_eq_some_iff {bytes : List Nat} {cs : List Char} :
    ofBytes? bytes = some cs ↔ toBytes cs = bytes := by
  refine ⟨toBytes_of_ofBytes?, ?_⟩
  rintro rfl
  exact ofBytes?_toBytes cs

theorem ofBytes?_eq_none_iff {bytes : List Nat} :
    ofBytes? bytes = none ↔ ∀ cs, toBytes cs ≠ bytes := by
  rw [Option.eq_none_iff_forall_ne_some]
  exact forall_congr' fun cs => not_congr ofBytes?_eq_some_iff

/-! ## Texts as they are stored -/

theorem charBytes_eq (c : Char) : charBytes c = (String.utf8EncodeChar c).map UInt8.toNat := by
  have bound := toNat_lt c
  unfold charBytes String.utf8EncodeChar
  dsimp only [Char.toNat] at bound ⊢
  generalize c.val.toNat = n at bound ⊢
  split_ifs <;> simp only [List.map_cons, List.map_nil, UInt8.toNat_ofNat', List.cons.injEq,
    reduceCtorEq, and_true, and_false] <;> omega

/-- The bytes of a text are those that it is stored in. -/
theorem toBytes_toList (s : String) : toBytes s.toList = s.toUTF8.data.toList.map UInt8.toNat := by
  rw [String.toUTF8_eq_toByteArray, ← String.utf8Encode_toList, List.utf8Encode,
    List.data_toByteArray, List.map_flatMap, toBytes]
  exact congrArg (s.toList.flatMap ·) (funext charBytes_eq)

theorem lt_of_mem_toBytes {b : Nat} {cs : List Char} (h : b ∈ toBytes cs) : b < 0x100 := by
  obtain ⟨c, -, member⟩ := List.mem_flatMap.1 h
  rw [charBytes_eq] at member
  obtain ⟨byte, -, rfl⟩ := List.mem_map.1 member
  exact byte.toNat_lt

/-- A text is known from its bytes. -/
theorem toBytes_toList_inj {s t : String} (h : toBytes s.toList = toBytes t.toList) : s = t := by
  have chars := congrArg ofBytes? h
  rw [ofBytes?_toBytes, ofBytes?_toBytes, Option.some.injEq] at chars
  exact String.toList_inj.1 chars

end ChangeReport.Text
