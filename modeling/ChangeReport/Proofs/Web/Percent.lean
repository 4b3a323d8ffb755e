import ChangeReport.Proofs.Text.Utf8
import ChangeReport.Web.Percent

/-! Percent encoding. A segment of a path is a text of unreserved characters, which stand for
themselves, and of escapes, which stand for one byte each. Reading takes exactly these texts, so a
segment stands for one list of bytes, and every list of bytes has a segment. -/
namespace ChangeReport.Web
open Text

/-- The digits of escapes, by their values. -/
def upperDigits : List Char := "0123456789ABCDEF".toList

/-- A segment with the bytes that it stands for. -/
inductive Encodes : List Char → List Nat → Prop
  | nil : Encodes [] []
  | plain {c cs bs} (unreserved : c.isAlphanum = true ∨ c ∈ ['-', '_', '.', '~'])
      (rest : Encodes cs bs) : Encodes (c :: cs) (c.toNat :: bs)
  | escape {x y a b cs bs} (high : upperDigits[x]? = some a) (low : upperDigits[y]? = some b)
      (rest : Encodes cs bs) : Encodes ('%' :: a :: b :: cs) ((x * 16 + y) :: bs)

theorem isUnreserved_iff {c : Char} :
    isUnreserved c.toNat = true ↔ c.isAlphanum = true ∨ c ∈ ['-', '_', '.', '~'] := by
  have letter : c.isAlphanum = true ↔ (0x41 ≤ c.toNat ∧ c.toNat ≤ 0x5A ∨
      0x61 ≤ c.toNat ∧ c.toNat ≤ 0x7A) ∨ 0x30 ≤ c.toNat ∧ c.toNat ≤ 0x39 := by
    delta Char.isAlphanum Char.isAlpha Char.isUpper Char.isLower Char.isDigit
    simp only [Bool.or_eq_true, Bool.and_eq_true, decide_eq_true_eq]
    rfl
  have mark : c ∈ ['-', '_', '.', '~'] ↔
      c.toNat = 0x2D ∨ c.toNat = 0x5F ∨ c.toNat = 0x2E ∨ c.toNat = 0x7E := by
    simp only [List.mem_cons, List.not_mem_nil, or_false, ← Char.toNat_inj]
    rfl
  simp only [isUnreserved, Bool.or_eq_true, Bool.and_eq_true, decide_eq_true_eq, beq_iff_eq, letter,
    mark, or_assoc]

theorem upperDigits_getElem? {x : Nat} (h : x < 16) : upperDigits[x]? = some (hexUpper x) := by
  have every : ∀ x < 16, upperDigits[x]? = some (hexUpper x) := by decide
  exact every x h

theorem hexValue?_eq_some_iff {x : Nat} {a : Char} :
    hexValue? a = some x ↔ upperDigits[x]? = some a := by
  constructor
  · intro value
    have digit : x < 16 ∧ hexUpper x = a := by
      rw [hexValue?] at value
      split_ifs at value with figure letter
      · have range : 0x30 ≤ a.toNat ∧ a.toNat ≤ 0x39 := figure
        obtain rfl := Option.some.inj value
        refine ⟨by omega, ?_⟩
        rw [hexUpper, if_pos (by omega), Nat.add_sub_cancel' range.1, Char.ofNat_toNat]
      · have range : 0x41 ≤ a.toNat ∧ a.toNat ≤ 0x46 := letter
        obtain rfl := Option.some.inj value
        refine ⟨by omega, ?_⟩
        rw [hexUpper, if_neg (by omega), Nat.add_sub_cancel' (by omega), Char.ofNat_toNat]
    rw [upperDigits_getElem? digit.1, digit.2]
  · intro digit
    obtain ⟨bound, -⟩ := List.getElem?_eq_some_iff.1 digit
    obtain rfl := Option.some.inj ((upperDigits_getElem? bound).symm.trans digit)
    have every : ∀ x < 16, hexValue? (hexUpper x) = some x := by decide
    exact every x bound

/-- Segments are read by what they stand for. -/
theorem decodeSegment?_eq_some_iff {cs : List Char} {bs : List Nat} :
    decodeSegment? cs = some bs ↔ Encodes cs bs := by
  constructor
  · intro read
    fun_induction decodeSegment? cs generalizing bs with
    | case1 =>
        obtain rfl := Option.some.inj read
        exact .nil
    | case2 a b rest ih =>
        obtain ⟨x, high, read⟩ := Option.bind_eq_some_iff.1 read
        obtain ⟨y, low, read⟩ := Option.bind_eq_some_iff.1 read
        obtain ⟨bytes, later, read⟩ := Option.bind_eq_some_iff.1 read
        obtain rfl := Option.some.inj read
        exact .escape (hexValue?_eq_some_iff.1 high) (hexValue?_eq_some_iff.1 low) (ih later)
    | case3 c rest _ unreserved ih =>
        obtain ⟨bytes, later, rfl⟩ := Option.map_eq_some_iff.1 read
        exact .plain (isUnreserved_iff.1 unreserved) (ih later)
    | case4 => cases read
  · intro spelled
    induction spelled with
    | nil => rfl
    | @plain c cs bs unreserved rest ih =>
        -- the reader tries escapes first, and an unreserved character begins none
        have keep := isUnreserved_iff.2 unreserved
        have bare : c ≠ '%' := by
          rintro rfl
          cases keep
        rw [decodeSegment?, if_pos keep, ih, Option.map_some]
        exact fun _ _ _ percent => absurd percent bare
    | escape high low rest ih =>
        simp [decodeSegment?, hexValue?_eq_some_iff.2 high, hexValue?_eq_some_iff.2 low, ih]

theorem Encodes.unique {cs : List Char} {bs bs' : List Nat} (h : Encodes cs bs)
    (h' : Encodes cs bs') : bs = bs' :=
  Option.some.inj ((decodeSegment?_eq_some_iff.2 h).symm.trans (decodeSegment?_eq_some_iff.2 h'))

theorem encodes_encodeBytes {bs : List Nat} (h : ∀ b ∈ bs, b < 0x100) :
    Encodes (encodeBytes isUnreserved bs) bs := by
  induction bs with
  | nil => exact .nil
  | cons b bs ih =>
      obtain ⟨bound, later⟩ := List.forall_mem_cons.1 h
      rw [encodeBytes, List.flatMap_cons, ← encodeBytes, encodeByte]
      split
      next keep =>
        have same : (Char.ofNat b).toNat = b := by
          rw [Char.ofNat, dif_pos (.inl (by omega))]
          rfl
        have plain := Encodes.plain (c := Char.ofNat b) (isUnreserved_iff.1 (by rwa [same])) (ih later)
        rwa [same] at plain
      next escaped =>
        have escape := Encodes.escape (upperDigits_getElem? (x := b / 16) (by omega))
          (upperDigits_getElem? (x := b % 16) (by omega)) (ih later)
        rwa [Nat.div_add_mod'] at escape

theorem encodes_encodeSegment (s : String) : Encodes (encodeSegment s).toList (toBytes s.toList) := by
  rw [encodeSegment, String.toList_ofList]
  exact encodes_encodeBytes fun b member => lt_of_mem_toBytes member

example : encodeSegment "infra/dépôt" = "infra%2Fd%C3%A9p%C3%B4t" := by decide +kernel

/-- Whether a character means the same everywhere in a path, or begins an escape. -/
def isPlain (c : Char) : Bool := isUnreserved c.toNat || c == '%'

theorem isPlain_of_isAlphanum {c : Char} (h : c.isAlphanum = true) : isPlain c = true := by
  rw [isPlain, isUnreserved_iff.2 (.inl h), Bool.true_or]

theorem Encodes.isPlain {cs : List Char} {bs : List Nat} (h : Encodes cs bs) :
    ∀ c ∈ cs, isPlain c = true := by
  have digits : upperDigits.all Web.isPlain = true := by decide
  rw [List.all_eq_true] at digits
  induction h with
  | nil => exact List.forall_mem_nil _
  | plain unreserved rest ih =>
      refine List.forall_mem_cons.2 ⟨?_, ih⟩
      rw [Web.isPlain, isUnreserved_iff.2 unreserved, Bool.true_or]
  | escape high low rest ih =>
      exact List.forall_mem_cons.2 ⟨rfl, List.forall_mem_cons.2 ⟨digits _ (List.mem_of_getElem? high),
        List.forall_mem_cons.2 ⟨digits _ (List.mem_of_getElem? low), ih⟩⟩⟩

end ChangeReport.Web
