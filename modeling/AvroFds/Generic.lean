import AvroFds.Wire

/-!
The binary encoding `avro::encode` writes for a `GenericDatum` and the generic
reader `avro::decode` runs for it: the reader takes back every encoding of a
conforming datum from the front of the stream, and whatever it reads conforms
to the schema it was given.
-/

namespace AvroFds.Generic

open Schema Wire

/-- What `avro::encode` writes for a datum; an array goes out as one block. -/
def encode : Datum → List Token
  | .null => []
  | .bool b => [.bool b]
  | .int x => [.long x.toInt]
  | .long x => [.long x]
  | .float b => [.float b]
  | .double b => [.double b]
  | .string s => [.bytes s]
  | .bytes bs => [.bytes bs]
  | .array [] => [.long 0]
  | .array (d :: ds) => .long (ds.length + 1) :: encodeAll (d :: ds) ++ [.long 0]
  | .union k d => .long k :: encode d
  | .record ds => encodeAll ds
where
  encodeAll : List Datum → List Token
    | [] => []
    | d :: ds => encode d ++ encodeAll ds

/-- `GenericReader::read` of a datum of schema `n`. -/
def decodeDatum : Node → Reader Datum
  | .null => pure .null
  | .bool => .bool <$> decodeBool
  | .int => .int <$> decodeInt
  | .long => .long <$> decodeLong
  | .float => .float <$> decodeFloat
  | .double => .double <$> decodeDouble
  | .string => .string <$> decodeString
  | .bytes => .bytes <$> decodeBytes
  | .array items => do .array <$> arrayItems (decodeDatum items) (← get).length
  | .union branches => do
    let k ← decodeUnionIndex
    .union k <$> decodeBranch branches k
  | .record _ fields => .record <$> decodeFields fields
where
  /-- `selectBranch(k)`, then the branch. -/
  decodeBranch : List Node → Nat → Reader Datum
    | [], _ => throw .branchOutOfRange
    | b :: _, 0 => decodeDatum b
    | _ :: bs, k + 1 => decodeBranch bs k
  decodeFields : List (String × Node) → Reader (List Datum)
    | [] => pure []
    | (_, f) :: fs => do
      let d ← decodeDatum f
      let ds ← decodeFields fs
      pure (d :: ds)

theorem encodeAll_eq (ds : List Datum) : encode.encodeAll ds = ds.flatMap encode := by
  induction ds with
  | nil => rfl
  | cons d ds ih => simp [encode.encodeAll, ih]

theorem encode_array_cons (d : Datum) (ds : List Datum) :
    encode (.array (d :: ds)) = arrayWire encode [d :: ds] := by
  simp [encode, arrayWire, encodeAll_eq]

mutual
theorem decodeDatum_encode : (n : Node) → (d : Datum) → n.conforms d = true →
    ∀ rest, (decodeDatum n).run (encode d ++ rest) = .ok (d, rest)
  | .null, d, h, rest | .bool, d, h, rest | .long, d, h, rest | .float, d, h, rest
  | .double, d, h, rest | .string, d, h, rest | .bytes, d, h, rest => by
    cases d <;> first | (cases h; done) | rfl
  | .int, d, h, rest => by
    cases d <;> first | (cases h; done) | exact run_map_ok (decodeInt_run _ _)
  | .array items, d, h, rest => by
    cases d <;> first | cases h | skip
    rename_i ds
    replace h : ∀ x ∈ ds, items.conforms x = true := List.all_eq_true.mp h
    simp only [decodeDatum, StateT.run_bind, StateT.run_get, pure_bind]
    rcases ds with _ | ⟨d, ds⟩
    · exact run_map_ok (arrayItems_run (decodeDatum items) encode [] (by simp) (by simp)
        _ (by simp [encode]) rest)
    · rw [encode_array_cons]
      have hrun := arrayItems_run (decodeDatum items) encode [d :: ds]
        (fun x hx rest => decodeDatum_encode items x (h x (by simpa using hx)) rest) (by simp)
        (arrayWire encode [d :: ds] ++ rest).length
        (by have := length_arrayWire encode [d :: ds]; simp only [List.length_append]; omega) rest
      rw [List.flatten_singleton] at hrun
      exact run_map_ok hrun
  | .union branches, d, h, rest => by
    cases d <;> first | cases h | skip
    rename_i k d
    simp only [decodeDatum, encode, List.cons_append]
    rw [run_bind_ok (decodeUnionIndex_run _ _)]
    exact run_map_ok (decodeBranch_encode branches k d h rest)
  | .record _ fields, d, h, rest => by
    cases d <;> first | cases h | skip
    simp only [decodeDatum, encode]
    exact run_map_ok (decodeFields_encode fields _ h rest)

theorem decodeBranch_encode : (bs : List Node) → (k : Nat) → (d : Datum) →
    Node.conforms.conformsBranch bs k d = true →
    ∀ rest, (decodeDatum.decodeBranch bs k).run (encode d ++ rest) = .ok (d, rest)
  | [], _, _, h, _ => by cases h
  | b :: _, 0, d, h, rest => decodeDatum_encode b d h rest
  | _ :: bs, k + 1, d, h, rest => decodeBranch_encode bs k d h rest

theorem decodeFields_encode : (fs : List (String × Node)) → (ds : List Datum) →
    Node.conforms.conformsFields fs ds = true →
    ∀ rest, (decodeDatum.decodeFields fs).run (encode.encodeAll ds ++ rest) = .ok (ds, rest)
  | [], [], _, rest => rfl
  | (_, f) :: fs, d :: ds, h, rest => by
    replace h := (Bool.and_eq_true _ _).mp h
    simp only [decodeDatum.decodeFields, encode.encodeAll, List.append_assoc]
    rw [run_bind_ok (decodeDatum_encode f d h.1 _), run_bind_ok (decodeFields_encode fs ds h.2 rest)]
    rfl
  | [], _ :: _, h, _ | _ :: _, [], h, _ => by cases h
end

mutual
theorem decodeDatum_conforms : (n : Node) → ∀ toks d rest,
    (decodeDatum n).run toks = .ok (d, rest) → n.conforms d = true
  | .null, _, _, _, h => by cases h; rfl
  | .bool, _, _, _, h | .int, _, _, _, h | .long, _, _, _, h | .float, _, _, _, h
  | .double, _, _, _, h | .string, _, _, _, h | .bytes, _, _, _, h => by
    obtain ⟨_, -, rfl⟩ := run_map_eq_ok h; rfl
  | .array items, _, _, _, h => by
    simp only [decodeDatum, StateT.run_bind, StateT.run_get, pure_bind] at h
    obtain ⟨ds, hds, rfl⟩ := run_map_eq_ok h
    exact List.all_eq_true.mpr (arrayItems_sound _ (fun x => items.conforms x = true)
      (fun _ x _ hx => decodeDatum_conforms items _ x _ hx) _ _ _ _ hds)
  | .union branches, _, _, _, h => by
    obtain ⟨k, _, -, h⟩ := run_bind_eq_ok h
    obtain ⟨v, hv, rfl⟩ := run_map_eq_ok h
    exact decodeBranch_conforms branches k _ _ _ hv
  | .record _ fields, _, _, _, h => by
    obtain ⟨ds, hds, rfl⟩ := run_map_eq_ok h
    exact decodeFields_conforms fields _ _ _ hds

theorem decodeBranch_conforms : (bs : List Node) → (k : Nat) → ∀ toks d rest,
    (decodeDatum.decodeBranch bs k).run toks = .ok (d, rest) →
    Node.conforms.conformsBranch bs k d = true
  | [], _, _, _, _, h => by cases h
  | b :: _, 0, _, _, _, h => decodeDatum_conforms b _ _ _ h
  | _ :: bs, k + 1, _, _, _, h => decodeBranch_conforms bs k _ _ _ h

theorem decodeFields_conforms : (fs : List (String × Node)) → ∀ toks ds rest,
    (decodeDatum.decodeFields fs).run toks = .ok (ds, rest) →
    Node.conforms.conformsFields fs ds = true
  | [], _, _, _, h => by cases h; rfl
  | (_, f) :: fs, _, _, _, h => by
    obtain ⟨d, _, hd, h⟩ := run_bind_eq_ok h
    obtain ⟨ds, _, hds, h⟩ := run_bind_eq_ok h
    cases h
    exact (Bool.and_eq_true _ _).mpr ⟨decodeDatum_conforms f _ _ _ hd, decodeFields_conforms fs _ _ _ hds⟩
end

end AvroFds.Generic
