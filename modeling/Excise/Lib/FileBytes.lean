import Mathlib.Tactic.Common

/-!
# The bytes of a file

What positioned reads and writes do to the bytes of a file, and what a write leaves of the parts
around it.
-/

namespace Excise
set_option autoImplicit false

def slice (file : List UInt8) (position count : Nat) : List UInt8 := (file.drop position).take count

/-- Bytes of the file from the cursor on; a gap reads as zeros. -/
def overwrite (file : List UInt8) (position : Nat) (bytes : List UInt8) : List UInt8 :=
  file.take position ++ List.replicate (position - file.length) 0 ++ bytes ++
    file.drop (position + bytes.length)

theorem slice_append (before middle after : List UInt8) :
    slice (before ++ (middle ++ after)) before.length middle.length = middle := by
  rw [slice, List.drop_left, List.take_left]

theorem overwrite_end (file bytes : List UInt8) : overwrite file file.length bytes = file ++ bytes := by
  unfold overwrite
  rw [List.take_length, Nat.sub_self, List.replicate_zero, List.append_nil,
    List.drop_of_length_le (by omega), List.append_nil]

theorem overwrite_append (before after bytes : List UInt8) :
    overwrite (before ++ after) before.length bytes =
      before ++ (bytes ++ after.drop bytes.length) := by
  have hgap : before.length - (before ++ after).length = 0 := by
    rw [List.length_append]
    omega
  unfold overwrite
  rw [List.take_left, hgap, List.replicate_zero, List.append_nil, List.drop_append,
    List.append_assoc, List.drop_of_length_le (by omega : before.length ≤ before.length + _),
    Nat.add_sub_cancel_left, List.nil_append]

/-- A write of as many bytes as are there keeps what is behind them. -/
theorem overwrite_middle {before old bytes after : List UInt8} (h : old.length = bytes.length) :
    overwrite (before ++ (old ++ after)) before.length bytes = before ++ (bytes ++ after) := by
  rw [overwrite_append, ← h, List.drop_left]

/-- The bytes before a gap, written again where the gap ends. -/
theorem overwrite_right (before bytes gap after : List UInt8) :
    overwrite (before ++ (bytes ++ (gap ++ after))) (before.length + gap.length) bytes =
      before ++ ((bytes ++ gap).take gap.length ++ (bytes ++ after)) := by
  have hold : ((bytes ++ gap).drop gap.length).length = bytes.length := by
    rw [List.length_drop, List.length_append]
    omega
  have hplace : (before ++ (bytes ++ gap).take gap.length).length = before.length + gap.length := by
    rw [List.length_append, List.length_take, List.length_append]
    omega
  have hsplit : before ++ (bytes ++ (gap ++ after)) =
      before ++ (bytes ++ gap).take gap.length ++ ((bytes ++ gap).drop gap.length ++ after) := by
    rw [List.append_assoc before, ← List.append_assoc (List.take _ _), List.take_append_drop,
      List.append_assoc]
  rw [← hplace, hsplit, overwrite_middle hold, List.append_assoc]

/-- The bytes behind a gap, written again where the gap starts. -/
theorem overwrite_left (before gap bytes after : List UInt8) :
    overwrite (before ++ (gap ++ (bytes ++ after))) before.length bytes =
      before ++ (bytes ++ ((gap ++ bytes).drop bytes.length ++ after)) := by
  rw [overwrite_append, ← List.append_assoc gap, List.drop_append_of_le_length]
  rw [List.length_append]
  omega

end Excise
