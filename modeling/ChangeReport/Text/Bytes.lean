/-! The size of text in bytes of UTF-8, and the cut of a text to a number of bytes. -/
namespace ChangeReport.Text

def byteLength : List Char → Nat
  | [] => 0
  | c :: cs => c.utf8Size + byteLength cs

/-- The longest start of the text that has at most `n` bytes. -/
def takeBytes : Nat → List Char → List Char
  | _, [] => []
  | n, c :: cs => if c.utf8Size ≤ n then c :: takeBytes (n - c.utf8Size) cs else []

def charBytes (c : Char) : List Nat :=
  let n := c.toNat
  if n < 0x80 then [n]
  else if n < 0x800 then [0xC0 + n / 0x40, 0x80 + n % 0x40]
  else if n < 0x10000 then [0xE0 + n / 0x1000, 0x80 + n / 0x40 % 0x40, 0x80 + n % 0x40]
  else [0xF0 + n / 0x40000, 0x80 + n / 0x1000 % 0x40, 0x80 + n / 0x40 % 0x40, 0x80 + n % 0x40]

def toBytes (cs : List Char) : List Nat := cs.flatMap charBytes

@[simp] theorem byteLength_append (a b : List Char) :
    byteLength (a ++ b) = byteLength a + byteLength b := by
  induction a with
  | nil => simp [byteLength]
  | cons c a ih => simp [byteLength, ih, Nat.add_assoc]

theorem takeBytes_length_le (n : Nat) (cs : List Char) : byteLength (takeBytes n cs) ≤ n := by
  induction cs generalizing n with
  | nil => simp [takeBytes, byteLength]
  | cons c cs ih =>
      by_cases fits : c.utf8Size ≤ n
      · have rest := ih (n - c.utf8Size)
        simp only [takeBytes, fits, ↓reduceIte, byteLength]
        omega
      · simp [takeBytes, fits, byteLength]

theorem takeBytes_isPrefixOf (n : Nat) (cs : List Char) : takeBytes n cs <+: cs := by
  induction cs generalizing n with
  | nil => simp [takeBytes]
  | cons c cs ih =>
      by_cases fits : c.utf8Size ≤ n
      · simpa [takeBytes, fits] using ih (n - c.utf8Size)
      · simp [takeBytes, fits]

/-- A cut leaves out at most the part of one character that fits. -/
theorem takeBytes_eq_or (n : Nat) (cs : List Char) :
    takeBytes n cs = cs ∨ n < byteLength (takeBytes n cs) + 4 := by
  induction cs generalizing n with
  | nil => exact .inl rfl
  | cons c cs ih =>
      have size := c.utf8Size_le_four
      by_cases fits : c.utf8Size ≤ n
      · rw [takeBytes, if_pos fits]
        refine (ih (n - c.utf8Size)).imp (congrArg (c :: ·)) fun near => ?_
        rw [byteLength]
        omega
      · rw [takeBytes, if_neg fits, byteLength]
        exact .inr (by omega)

theorem eq_nil_of_byteLength_eq_zero {cs : List Char} (h : byteLength cs = 0) : cs = [] := by
  cases cs with
  | nil => rfl
  | cons c cs =>
      have size := c.utf8Size_pos
      rw [byteLength] at h
      omega

end ChangeReport.Text
