import AvroFds.InternalDecoder

/-!
One record of a sparse column: the `values` field and the `indicesK` fields of
the sparse sub-record, in the order the schema lists them, each read by its
internal decoder with the same `indices_start`, and the coordinate rows they
leave behind.
-/

namespace AvroFds.Sparse

open Schema Wire Buffer

/-- Modelled from the spec: the logical role of a field of the sparse
sub-record, which the binding in sparse_feature_decoder.h (not in the
repository) reads from the field's name. -/
inductive SubField where
  | values
  | indices (dim : Nat)
  deriving Repr, DecidableEq

/-- The dimensions of the `indicesK` fields among `fs`. -/
def SubField.dims (fs : List SubField) : List Nat :=
  fs.filterMap fun | .values => none | .indices dim => some dim

/-- The fields of a sparse sub-record on the wire: the values sent as
`vblocks`, the coordinates of dimension `d` as `cblocks d`. -/
def SubField.wire (T : DataType) (vblocks : List (List T.Val)) (cblocks : Nat → List (List Int)) :
    SubField → List Token
  | .values => arrayWire (fun x => [T.encode x]) vblocks
  | .indices dim => arrayWire (fun x => [.long x]) (cblocks dim)

/-- The rows once the dimensions `D` are written: the others still hold the
zeros of the resize. -/
def maskedRows (c : Nat → List Int) (r n : Nat) (D : List Nat) : List Int :=
  (List.range n).flatMap fun j => 0 :: (List.range r).map fun d => if d ∈ D then (c d).getD j 0 else 0

theorem length_flatMap_range {k : Nat} (row : Nat → List α) (hrow : ∀ j, (row j).length = k) (n : Nat) :
    ((List.range n).flatMap row).length = n * k := by
  induction n with
  | zero => simp
  | succ n ih => rw [List.range_succ, List.flatMap_append, List.flatMap_singleton, List.length_append, ih, hrow,
      Nat.succ_mul]

theorem getElem?_flatMap_range {k : Nat} (row : Nat → List α) (hrow : ∀ j, (row j).length = k) (n q : Nat) :
    ((List.range n).flatMap row)[q]? = if q < n * k then (row (q / k))[q % k]? else none := by
  induction n with
  | zero => simp
  | succ n ih =>
    rw [List.range_succ, List.flatMap_append, List.flatMap_singleton, List.getElem?_append,
      length_flatMap_range row hrow]
    rcases Nat.lt_or_ge q (n * k) with hq | hq
    · rw [if_pos hq, ih, if_pos hq, if_pos (by rw [Nat.succ_mul]; omega)]
    · rw [if_neg (by omega)]
      rcases Nat.lt_or_ge q ((n + 1) * k) with hq' | hq'
      · have hk : 0 < k := Nat.pos_of_ne_zero fun h => by subst h; simp at hq'
        obtain ⟨t, rfl⟩ : ∃ t, q = n * k + t := ⟨q - n * k, by omega⟩
        have ht : t < k := by rw [Nat.succ_mul] at hq'; omega
        rw [if_pos hq', Nat.add_sub_cancel_left, Nat.mul_comm, Nat.mul_add_div hk, Nat.mul_add_mod,
          Nat.div_eq_of_lt ht, Nat.mod_eq_of_lt ht, Nat.add_zero]
      · rw [if_neg (by omega), List.getElem?_eq_none]
        rw [hrow, Nat.succ_mul] at *; omega

theorem getElem?_maskedRows (c : Nat → List Int) (r n : Nat) (D : List Nat) (q : Nat) :
    (maskedRows c r n D)[q]? =
      if q < n * (r + 1) then
        some (if q % (r + 1) = 0 then 0
          else if q % (r + 1) - 1 ∈ D then (c (q % (r + 1) - 1)).getD (q / (r + 1)) 0 else 0)
      else none := by
  rw [maskedRows, getElem?_flatMap_range (k := r + 1) _ (fun j => by simp)]
  by_cases hq : q < n * (r + 1)
  · rw [if_pos hq, if_pos hq]
    obtain ⟨t, ht⟩ : ∃ t, q % (r + 1) = t := ⟨_, rfl⟩
    have htr : t < r + 1 := ht ▸ Nat.mod_lt _ (by omega)
    rw [ht]
    cases t with
    | zero => simp
    | succ d => simp [List.getElem?_map, List.getElem?_range (show d < r by omega)]
  · rw [if_neg hq, if_neg hq]

theorem length_maskedRows (c : Nat → List Int) (r n : Nat) (D : List Nat) :
    (maskedRows c r n D).length = n * (r + 1) := by
  exact length_flatMap_range _ (fun j => by simp) n

theorem grow_eq_maskedRows_nil (c : Nat → List Int) (r n : Nat) (v : List Int) :
    grow v (v.length + n * (r + 1)) = v ++ maskedRows c r n [] := by
  rw [grow, Nat.add_sub_cancel_left]
  congr 1
  apply List.ext_getElem?
  intro q
  rw [getElem?_maskedRows, List.getElem?_replicate]
  split <;> simp

theorem fillCoords_maskedRows {c : Nat → List Int} {r n d : Nat} (hd : d < r) (hc : (c d).length = n)
    (v : List Int) (D : List Nat) :
    fillCoords (v ++ maskedRows c r n D) v.length (r + 1) (d + 1) (c d) = v ++ maskedRows c r n (d :: D) := by
  apply List.ext_getElem?
  intro p
  rw [getElem?_fillCoords (by omega), grow_of_le (by simp [length_maskedRows, hc]), hc]
  rcases Nat.lt_or_ge p v.length with hp | hp
  · rw [if_neg (by omega), List.getElem?_append_left hp, List.getElem?_append_left hp]
  · rw [List.getElem?_append_right hp, List.getElem?_append_right hp, getElem?_maskedRows, getElem?_maskedRows]
    split
    · rename_i h
      have hq : p - v.length < n * (r + 1) := by omega
      have hj : (p - v.length) / (r + 1) < n := Nat.div_lt_of_lt_mul (by rw [Nat.mul_comm]; exact hq)
      rw [if_pos hq, if_neg (by omega), h.2.2, Nat.add_sub_cancel, if_pos (List.mem_cons_self _ _),
        List.getD_eq_getElem?_getD, List.getElem?_eq_getElem (by omega)]
      rfl
    · rename_i h
      split
      · rename_i hq
        have hne : (p - v.length) % (r + 1) ≠ d + 1 := fun h' => h ⟨hp, by omega, h'⟩
        by_cases h0 : (p - v.length) % (r + 1) = 0
        · simp [h0]
        · simp only [h0, if_false, List.mem_cons, show (p - v.length) % (r + 1) - 1 ≠ d by omega, false_or]
      · rfl

@[simp] theorem dims_nil : SubField.dims [] = [] := rfl

@[simp] theorem dims_cons_values (fs : List SubField) : SubField.dims (.values :: fs) = SubField.dims fs := rfl

@[simp] theorem dims_cons_indices (dim : Nat) (fs : List SubField) :
    SubField.dims (.indices dim :: fs) = dim :: SubField.dims fs := rfl

/-- The coordinates of a record once the fields of dimensions `D` are read:
untouched while no `indicesK` field has been read, then the rows with the
columns of `D` written. -/
def PartialRows (c : Nat → List Int) (r n : Nat) (v w : List Int) (D : List Nat) : Prop :=
  (w = v ∧ D = []) ∨ w = v ++ maskedRows c r n D

theorem PartialRows.length_le {c : Nat → List Int} {r n : Nat} {v w : List Int} {D : List Nat}
    (h : PartialRows c r n v w D) : v.length ≤ w.length := by
  rcases h with ⟨rfl, -⟩ | rfl
  · exact le_rfl
  · simp

theorem PartialRows.fillCoords {c : Nat → List Int} {r n d : Nat} (hd : d < r) (hc : (c d).length = n)
    {v w : List Int} {D : List Nat} (h : PartialRows c r n v w D) :
    PartialRows c r n v (Sparse.fillCoords w v.length (r + 1) (d + 1) (c d)) (d :: D) := by
  right
  rcases h with ⟨rfl, rfl⟩ | rfl
  · rw [← fillCoords_grow, hc, grow_eq_maskedRows_nil c r n w, fillCoords_maskedRows hd hc]
  · exact fillCoords_maskedRows hd hc v D

section Run

variable (T : DataType) (valuesIndex indicesIndex r n : Nat) (vblocks : List (List T.Val))
  (cblocks : Nat → List (List Int)) (v : List Int) (rest : List Token)

end Run

end AvroFds.Sparse
