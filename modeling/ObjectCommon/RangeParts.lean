import ObjectCommon.RangeResolution

/-!
# Consecutive ranges

* `ByteRange.closed` : the range of some bytes from a position on;
* `ByteRange.consecutive` : ranges of the lengths given, each from the end of the one before;
* `ByteRange.flatten_consecutive` : what they ask for, one after another, is the content up to their end.
-/

namespace ObjectCommon

namespace ByteRange

variable {α : Type}

/-- `ByteRange(start, start + length - 1)` -/
def closed (start : Nat) (length : Positive) : ByteRange where
  start := some start
  rangeEnd := some (start + length.val - 1)
  suffixLength := none
  valid := by
    have hpos := length.2
    refine ⟨start, rfl, fun e he => ?_⟩
    obtain rfl := Option.some.inj he
    omega

def consecutive (start : Nat) : List Positive → List ByteRange
  | [] => []
  | length :: lengths => closed start length :: consecutive (start + length.val) lengths

theorem length_consecutive (start : Nat) (lengths : List Positive) :
    (consecutive start lengths).length = lengths.length := by
  induction lengths generalizing start with
  | nil => rfl
  | cons length lengths ih => rw [consecutive, List.length_cons, ih, List.length_cons]

theorem mem_consecutive {start : Nat} {lengths : List Positive} {r : ByteRange} (h : r ∈ consecutive start lengths) :
    ∃ first, ∃ length ∈ lengths, r = closed first length := by
  induction lengths generalizing start with
  | nil => cases h
  | cons length lengths ih =>
    obtain rfl | h := List.mem_cons.mp h
    · exact ⟨start, length, List.mem_cons_self, rfl⟩
    · obtain ⟨first, found, hfound, rfl⟩ := ih h
      exact ⟨first, found, List.mem_cons_of_mem _ hfound, rfl⟩

/-- What a closed range asks for. -/
theorem requested_closed (start : Nat) (length : Positive) (data : List α) :
    (closed start length).requested data = (data.drop start).take length.val := by
  have hpos := length.2
  rcases Nat.eq_zero_or_pos data.length with hempty | hdata
  · obtain rfl := List.length_eq_zero_iff.mp hempty
    simp [requested]
  · have hlast : (closed start length).lastByte data.length + 1 = min (start + length.val) data.length := by
      show min (start + length.val - 1) (data.length - 1) + 1 = _
      omega
    rw [requested_eq_slice _ _ hdata, hlast]
    show (data.take (min (start + length.val) data.length)).drop start = _
    rw [← List.take_take, List.take_length, List.drop_take, Nat.add_sub_cancel_left]

/-- **Consecutive ranges ask for the content up to their end**, each byte once and in order. -/
theorem flatten_consecutive (start : Nat) (lengths : List Positive) (data : List α) :
    ((consecutive start lengths).map fun r => r.requested data).flatten =
      (data.drop start).take (lengths.map Subtype.val).sum := by
  induction lengths generalizing start with
  | nil => rfl
  | cons length lengths ih =>
    rw [consecutive, List.map_cons, List.flatten_cons, ih, requested_closed, List.map_cons, List.sum_cons, List.take_add,
      List.drop_drop]

end ByteRange

end ObjectCommon
