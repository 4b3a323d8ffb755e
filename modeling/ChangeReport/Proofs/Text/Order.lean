import ChangeReport.Text.Bytes
import Mathlib.Data.List.Lex

/-! The order of texts. The bytes of texts are in the same order as their characters. -/
namespace ChangeReport.Text

/-- Of two characters the later one has the later bytes, whatever follows: where their numbers of
bytes differ, the first byte tells. -/
theorem charBytes_append_lt {c d : Char} (h : c < d) (r s : List Nat) :
    charBytes c ++ r < charBytes d ++ s := by
  have less : c.toNat < d.toNat := UInt32.lt_iff_toNat_lt.1 h
  unfold charBytes
  dsimp only
  split_ifs <;> simp only [List.cons_append, List.nil_append, List.cons_lt_cons_iff] <;> omega

theorem charBytes_ne_nil (c : Char) : charBytes c ≠ [] := by
  unfold charBytes
  dsimp only
  split_ifs <;> exact List.cons_ne_nil _ _

theorem toBytes_lt_toBytes {a b : List Char} (h : a < b) : toBytes a < toBytes b := by
  induction a generalizing b with
  | nil =>
      cases b with
      | nil => exact absurd h (List.lt_irrefl [])
      | cons d b =>
          obtain ⟨n, rest, first⟩ := List.exists_cons_of_ne_nil (charBytes_ne_nil d)
          rw [toBytes, toBytes, List.flatMap_cons, first]
          exact List.nil_lt_cons ..
  | cons c a ih =>
      cases b with
      | nil => exact absurd h (List.not_lt_nil _)
      | cons d b =>
          rw [toBytes, toBytes, List.flatMap_cons, List.flatMap_cons]
          rcases List.cons_lt_cons_iff.1 h with less | ⟨rfl, less⟩
          · exact charBytes_append_lt less _ _
          · exact List.append_left_lt (ih less)

/-- One text comes before another in the order of their bytes. -/
def Precedes (a b : String) : Prop := toBytes a.toList < toBytes b.toList

theorem precedes_of_compare {a b : String} (h : compare a b = .lt) : Precedes a b := by
  have less : a < b := compareOfLessAndEq_eq_lt.1 h
  exact toBytes_lt_toBytes less

/-- The names of a map are compared by their bytes. -/
theorem precedes_iff_compare {a b : String} : Precedes a b ↔ compare a b = .lt := by
  refine ⟨fun bytes => ?_, precedes_of_compare⟩
  cases order : compare a b with
  | lt => rfl
  | eq =>
      obtain rfl : a = b := Std.LawfulEqCmp.eq_of_compare order
      exact absurd bytes (List.lt_irrefl _)
  | gt => exact absurd bytes (List.lt_asymm (precedes_of_compare (Std.OrientedCmp.lt_of_gt order)))

end ChangeReport.Text
