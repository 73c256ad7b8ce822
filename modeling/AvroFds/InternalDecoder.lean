import AvroFds.Buffer

/-!
The internal decoders of a sparse column (sparse_feature_internal_decoder.h):
`DecodeVarLenValues` and its string specialisation, `ValuesDecoder<T>` and
`IndicesDecoder<T>` with its `long` specialisation, with every `size_t` sum
taken modulo `2^64`.
-/

namespace AvroFds.Sparse

open Schema Wire Buffer

/-- Applies `f` to `GetValueVector<T>(buffer, valuesIndex)`. -/
def mapValues (T : DataType) (valuesIndex : Nat) (f : List T.Val → List T.Val) (s : Machine) : Machine :=
  { s with buffer := s.buffer.setValues T ((s.buffer.values T).modify f valuesIndex) }

/-- `v.emplace_back(x)` on `GetValueVector<T>(buffer, valuesIndex)`. -/
def pushValue (T : DataType) (valuesIndex : Nat) (x : T.Val) : Machine → Machine :=
  mapValues T valuesIndex (· ++ [x])

/-- `v.back() = x` on the string vector `valuesIndex`. -/
def setBackString (valuesIndex : Nat) (x : List UInt8) : Machine → Machine :=
  mapValues .string valuesIndex fun v : List (List UInt8) => v.dropLast ++ [x]

/-- `for (size_t i = 0; i < m; i++) v.emplace_back(avro::decoder_t::Decode<T>(decoder));` -/
def pushValues (T : DataType) (valuesIndex : Nat) : Nat → DecodeM Unit
  | 0 => pure ()
  | m + 1 => do
    let x ← read T.decode
    modify (pushValue T valuesIndex x)
    pushValues T valuesIndex m

/-- `decoder->decodeString(v.back())` on the string vector `valuesIndex`: the
string read, or, when the stream ends inside it, the string cut short. -/
def decodeStringBack (valuesIndex : Nat) : DecodeM Unit := fun s =>
  match s.input with
  | .cut len bs :: rest => .error .eof (setBackString valuesIndex (cutString len bs) { s with input := rest })
  | _ => (read decodeString >>= fun x => modify (setBackString valuesIndex x)) s

/-- The loop of `DecodeVarLenValues<string>`: `v.push_back(""); decoder->decodeString(v.back());` -/
def pushStrings (valuesIndex : Nat) : Nat → DecodeM Unit
  | 0 => pure ()
  | m + 1 => do
    modify (pushValue .string valuesIndex [])
    decodeStringBack valuesIndex
    pushStrings valuesIndex m

/-- `for (size_t m = decoder->arrayStart(); m != 0; m = decoder->arrayNext())`
with `count += m` and `items m` in the body; `fuel` bounds the blocks by the
tokens left, as for `arrayItems`. -/
def varLenBlocks (items : Nat → DecodeM Unit) : Nat → Nat → DecodeM Nat
  | 0, _ => throw .eof
  | fuel + 1, count => do
    let m ← read decodeItemCount
    if m = 0 then pure count
    else
      items m
      varLenBlocks items fuel (wrap (count + m))

/-- `DecodeVarLenValues<T>(decoder, GetValueVector<T>(buffer, valuesIndex))`. -/
def decodeVarLenValues (T : DataType) (valuesIndex : Nat) : DecodeM Nat := do
  varLenBlocks (pushValues T valuesIndex) (← get).input.length 0

/-- `DecodeVarLenValues<string>`. -/
def decodeVarLenStrings (valuesIndex : Nat) : DecodeM Nat := do
  varLenBlocks (pushStrings valuesIndex) (← get).input.length 0

@[simp] theorem pushValue_with_input (T : DataType) (valuesIndex : Nat) (x : T.Val) (s : Machine) (rest : List Token) :
    { pushValue T valuesIndex x s with input := rest } = pushValue T valuesIndex x { s with input := rest } := rfl

theorem mapValues_mapValues (T : DataType) (valuesIndex : Nat) (f g : List T.Val → List T.Val) (s : Machine) :
    mapValues T valuesIndex f (mapValues T valuesIndex g s) = mapValues T valuesIndex (f ∘ g) s := by
  simp only [mapValues, ValueBuffer.values_setValues, ValueBuffer.setValues_setValues, List.modify_modify_eq]

theorem mapValues_append_nil (T : DataType) (valuesIndex : Nat) (s : Machine) :
    mapValues T valuesIndex (· ++ []) s = s := by
  have h : (fun v : List T.Val => v ++ []) = id := funext List.append_nil
  rw [mapValues, h, List.modify_id, ValueBuffer.setValues_values]

theorem setBackString_pushValue (valuesIndex : Nat) (x : List UInt8) (s : Machine) :
    setBackString valuesIndex x (pushValue .string valuesIndex [] s) = pushValue .string valuesIndex x s := by
  rw [setBackString, pushValue, pushValue, mapValues_mapValues]
  congr 1
  funext v
  simp

theorem decodeStringBack_eq {valuesIndex : Nat} {s : Machine} (h : ∀ len bs rest, s.input ≠ .cut len bs :: rest) :
    decodeStringBack valuesIndex s = (read decodeString >>= fun x => modify (setBackString valuesIndex x)) s := by
  unfold decodeStringBack
  split
  · rename_i len bs rest hin
    exact absurd hin (h len bs rest)
  · rfl

theorem decodeStringBack_cut {valuesIndex len : Nat} {bs : List UInt8} {s : Machine} {rest : List Token}
    (h : s.input = .cut len bs :: rest) :
    decodeStringBack valuesIndex s = .error .eof (setBackString valuesIndex (cutString len bs) { s with input := rest }) := by
  simp only [decodeStringBack, h]

theorem decodeStringBack_pushValue (valuesIndex : Nat) (s : Machine) :
    (∃ x rest, decodeString.run s.input = .ok (x, rest) ∧
      decodeStringBack valuesIndex (pushValue .string valuesIndex [] s) =
        .ok () (pushValue .string valuesIndex x { s with input := rest })) ∨
    (∃ len bs rest, s.input = .cut len bs :: rest ∧
      decodeStringBack valuesIndex (pushValue .string valuesIndex [] s) =
        .error .eof (pushValue .string valuesIndex (cutString len bs) { s with input := rest })) ∨
    ∃ e, decodeString.run s.input = .error e ∧ (∀ len bs rest, s.input ≠ .cut len bs :: rest) ∧
      decodeStringBack valuesIndex (pushValue .string valuesIndex [] s) = .error e (pushValue .string valuesIndex [] s) := by
  by_cases hcut : ∃ len bs rest, s.input = .cut len bs :: rest
  · obtain ⟨len, bs, rest, h⟩ := hcut
    refine .inr (.inl ⟨len, bs, rest, h, ?_⟩)
    rw [decodeStringBack_cut (s := pushValue .string valuesIndex [] s) h, pushValue_with_input,
      setBackString_pushValue]
  · push_neg at hcut
    rw [decodeStringBack_eq (s := pushValue .string valuesIndex [] s) hcut]
    cases h : decodeString.run s.input with
    | ok p =>
      refine .inl ⟨p.1, p.2, rfl, ?_⟩
      rw [bind_ok (read_ok (s := pushValue .string valuesIndex [] s) h), modify_run, pushValue_with_input,
        setBackString_pushValue]
    | error e => exact .inr (.inr ⟨e, rfl, hcut, bind_error (read_error (s := pushValue .string valuesIndex [] s) h)⟩)

/-- `DecodeVarLenValues<T>` with its `string` specialisation. -/
def decodeVarLen : DataType → Nat → DecodeM Nat
  | .string, valuesIndex => decodeVarLenStrings valuesIndex
  | T, valuesIndex => decodeVarLenValues T valuesIndex

/-- `T` of `IndicesDecoder<T>`, which `enable_if` restricts to `int` and `long`. -/
inductive IndexType where
  | int | long
  deriving Repr, DecidableEq

/-- `static_cast<long>(avro::decoder_t::Decode<T>(decoder))` of the generic
`IndicesDecoder<T>::Decode`, and `decoder->decodeLong()` of its `long`
specialisation. -/
def IndexType.read : IndexType → Reader Int
  | .int => (fun x : BitVec 32 => x.toInt) <$> decodeInt
  | .long => decodeLong

/-- `std::vector<long>::max_size()` of libstdc++, `PTRDIFF_MAX / sizeof(long)`. -/
def maxSize : Nat := 2 ^ 60 - 1

/-- `v.resize(end)` when `end > v.size()`: new longs are zero. -/
def grow (v : List Int) (n : Nat) : List Int := v ++ List.replicate (n - v.length) 0

/-- Applies `f` to `buffer.indices[indicesIndex]`. -/
def mapIndices (indicesIndex : Nat) (f : List Int → List Int) (s : Machine) : Machine :=
  { s with buffer := { s.buffer with indices := s.buffer.indices.modify f indicesIndex } }

/-- `if (end > v.size()) v.resize(end);` on `buffer.indices[indicesIndex]`: a
resize past `max_size()` throws `std::length_error` and leaves `v` as it was. -/
def resizeIndices (indicesIndex end_ : Nat) : DecodeM Unit := do
  if ((← get).buffer.indices.getD indicesIndex []).length < end_ then
    if end_ ≤ maxSize then modify (mapIndices indicesIndex (grow · end_)) else throw .lengthError
  else pure ()

/-- `for (size_t i = start + dim_after_batch; i < end; i += rank_after_batch_) v[i] = read;`
Every turn reads a token, so `fuel`, the tokens left, bounds the turns. -/
def writeIndices (readIndex : Reader Int) (indicesIndex r1 end_ : Nat) : Nat → Nat → DecodeM Unit
  | 0, i => if i < end_ then throw .eof else pure ()
  | fuel + 1, i =>
    if i < end_ then do
      let x ← read readIndex
      modify (mapIndices indicesIndex (·.set i x))
      writeIndices readIndex indicesIndex r1 end_ fuel (wrap (i + r1))
    else pure ()

/-- The block loop of `IndicesDecoder<T>::Decode`, from `count` and `start`.
The model keeps no capacity, so `v.reserve(2 * v.capacity())` is left out. -/
def indicesBlocks (readIndex : Reader Int) (indicesIndex r1 d1 : Nat) : Nat → Nat → Nat → DecodeM Nat
  | 0, _, _ => throw .eof
  | fuel + 1, count, start => do
    let m ← read decodeItemCount
    if m = 0 then pure count
    else
      let end_ := wrap (start + wrap (m * r1))
      resizeIndices indicesIndex end_
      writeIndices readIndex indicesIndex r1 end_ (← get).input.length (wrap (start + d1))
      indicesBlocks readIndex indicesIndex r1 d1 fuel (wrap (count + m)) end_

theorem length_grow (v : List Int) (n : Nat) : (grow v n).length = max v.length n := by
  simp [grow]; omega

theorem grow_of_le {v : List Int} {n : Nat} (h : n ≤ v.length) : grow v n = v := by
  simp [grow, Nat.sub_eq_zero_of_le h]

theorem grow_grow (v : List Int) (a b : Nat) : grow (grow v a) b = grow v (max a b) := by
  simp only [grow, List.length_append, List.length_replicate, List.append_assoc, List.append_replicate_replicate]
  congr 2; omega

/-- The writes of the loop over one block: `c[j]` at `start + j * r1 + d1`. -/
def setCoords (v : List Int) (start r1 d1 : Nat) : List Int → List Int
  | [] => v
  | x :: c => setCoords (v.set (start + d1) x) (start + r1) r1 d1 c

theorem getElem?_setCoords {v : List Int} {start r1 d1 : Nat} (hd : d1 < r1) {cs : List Int}
    (h : start + cs.length * r1 ≤ v.length) (p : Nat) :
    (setCoords v start r1 d1 cs)[p]? =
      if start ≤ p ∧ p < start + cs.length * r1 ∧ (p - start) % r1 = d1 then cs[(p - start) / r1]?
      else v[p]? := by
  induction cs generalizing v start with
  | nil =>
    rw [if_neg (by simp only [List.length_nil, Nat.zero_mul, Nat.add_zero]; omega)]; rfl
  | cons x cs ih =>
    simp only [List.length_cons, Nat.add_one_mul] at h
    simp only [setCoords]
    rw [ih (by simp; omega), List.getElem?_set, if_pos (show start + d1 < v.length by omega)]
    rcases Nat.lt_or_ge p (start + r1) with hp | hp
    · rw [if_neg (by omega)]
      by_cases hs : start ≤ p
      · have hm : (p - start) % r1 = p - start := Nat.mod_eq_of_lt (by omega)
        have hdv : (p - start) / r1 = 0 := Nat.div_eq_of_lt (by omega)
        simp only [List.length_cons, Nat.add_one_mul, hm, hdv, List.getElem?_cons_zero]
        by_cases he : start + d1 = p
        · rw [if_pos he, if_pos (by omega)]
        · rw [if_neg he, if_neg (by omega)]
      · rw [if_neg (by omega), if_neg (by omega)]
    · obtain ⟨q, rfl⟩ : ∃ q, p = start + r1 + q := ⟨p - (start + r1), by omega⟩
      have hq : start + r1 + q - start = q + r1 := by omega
      rw [if_neg (show start + d1 ≠ start + r1 + q by omega), Nat.add_sub_cancel_left, hq,
        Nat.add_mod_right, Nat.add_div_right _ (by omega), List.getElem?_cons_succ, List.length_cons,
        Nat.add_one_mul]
      congr 1
      apply propext
      omega

/-- What the coordinates `c` of one dimension leave in `v`: `v` grown to
`start + c.length * r1`, with `c[j]` at `start + j * r1 + d1`. -/
def fillCoords (v : List Int) (start r1 d1 : Nat) (c : List Int) : List Int :=
  setCoords (grow v (start + c.length * r1)) start r1 d1 c

theorem getElem?_fillCoords {r1 d1 : Nat} (hd : d1 < r1) (v : List Int) (start : Nat) (cs : List Int) (p : Nat) :
    (fillCoords v start r1 d1 cs)[p]? =
      if start ≤ p ∧ p < start + cs.length * r1 ∧ (p - start) % r1 = d1 then cs[(p - start) / r1]?
      else (grow v (start + cs.length * r1))[p]? :=
  getElem?_setCoords hd (by rw [length_grow]; omega) p

theorem fillCoords_grow (v : List Int) (start r1 d1 : Nat) (c : List Int) :
    fillCoords (grow v (start + c.length * r1)) start r1 d1 c = fillCoords v start r1 d1 c := by
  rw [fillCoords, fillCoords, grow_grow, Nat.max_self]

@[simp] theorem indices_mapValues (T : DataType) (valuesIndex : Nat) (f : List T.Val → List T.Val)
    (s : Machine) : (mapValues T valuesIndex f s).buffer.indices = s.buffer.indices := by
  simp [mapValues]

@[simp] theorem values_mapIndices (indicesIndex : Nat) (f : List Int → List Int) (s : Machine) (T : DataType) :
    (mapIndices indicesIndex f s).buffer.values T = s.buffer.values T := by
  cases T <;> rfl

theorem mapIndices_id (indicesIndex : Nat) (s : Machine) : mapIndices indicesIndex id s = s := by
  simp [mapIndices, List.modify_id]

theorem mapIndices_mapIndices (indicesIndex : Nat) (f g : List Int → List Int) (s : Machine) :
    mapIndices indicesIndex f (mapIndices indicesIndex g s) = mapIndices indicesIndex (f ∘ g) s := by
  simp [mapIndices, List.modify_modify_eq]

/-- `InternalDecoder`: a `ValuesDecoder<T>(values_index)` or an
`IndicesDecoder<T>(indices_index, rank)`, whose `rank_after_batch_` is `rank + 1`. -/
inductive InternalDecoder where
  | values (T : DataType) (valuesIndex : Nat)
  | indices (T : IndexType) (indicesIndex rankAfterBatch : Nat)

/-- `InternalDecoder::Decode(decoder, buffer, dim, indices_start)`; reaching a
vector past the end of the buffer is undefined. -/
def InternalDecoder.decode : InternalDecoder → Nat → Nat → DecodeM Nat
  | .values T valuesIndex, _, _ => do
    if valuesIndex < ((← get).buffer.values T).length then decodeVarLen T valuesIndex
    else throw .undefinedBehaviour
  | .indices T indicesIndex r1, dim, indicesStart => do
    let s ← get
    if indicesIndex < s.buffer.indices.length then
      indicesBlocks T.read indicesIndex r1 (wrap (dim + 1)) s.input.length 0 indicesStart
    else throw .undefinedBehaviour

end AvroFds.Sparse
