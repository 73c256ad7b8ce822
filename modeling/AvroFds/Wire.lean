import AvroFds.Schema

/-!
The binary decoder behind `avro::DecoderPtr`, seen at the level of what each
primitive read returns, and the loop over an array's blocks.
-/

namespace AvroFds.Wire

open Schema

/-- One primitive item on the wire: a zig-zag varint (an `int`, a `long`, a
union index or an array block count), the bits of a `float` or a `double`, a
boolean byte, or a length-prefixed byte string; `cut len bs` is the length
prefix `len` of a byte string of which the stream holds only `bs` before it
ends. -/
inductive Token where
  | long (x : Int)
  | float (bits : BitVec 32)
  | double (bits : BitVec 64)
  | bool (b : Bool)
  | bytes (bs : List UInt8)
  | cut (len : Nat) (bs : List UInt8)
  deriving Repr, DecidableEq

/-- An `avro::Exception` escaping a read, the `std::length_error` of a vector
grown past its `max_size()`, or undefined behaviour of the C++ code (an access
past the end of a vector). -/
inductive Exception where
  | eof
  | badToken
  | intOutOfRange (x : Int)
  | branchOutOfRange
  | lengthError
  | undefinedBehaviour
  deriving Repr, DecidableEq

abbrev Reader := StateT (List Token) (Except Exception)

/-- `static_cast<size_t>` of an `int64_t`. -/
def toSizeT (x : Int) : Nat := if 0 ≤ x then x.toNat else (x + 2 ^ 64).toNat

def next (f : Token → Option α) : Reader α := fun
  | [] => .error .eof
  | t :: rest =>
    match f t with
    | some a => .ok (a, rest)
    | none => .error .badToken

def decodeLong : Reader Int := next fun | .long x => some x | _ => none

def decodeInt : Reader (BitVec 32) := do
  let x ← decodeLong
  if -2 ^ 31 ≤ x ∧ x < 2 ^ 31 then pure (BitVec.ofInt 32 x) else throw (.intOutOfRange x)

def decodeFloat : Reader (BitVec 32) := next fun | .float b => some b | _ => none

def decodeDouble : Reader (BitVec 64) := next fun | .double b => some b | _ => none

def decodeBool : Reader Bool := next fun | .bool b => some b | _ => none

/-- `decodeString` into a string of its own: a string the stream cuts short
throws at the end of the stream. -/
def decodeString : Reader (List UInt8) := fun
  | .bytes bs :: rest => .ok (bs, rest)
  | .cut _ _ :: _ | [] => .error .eof
  | _ :: _ => .error .badToken

/-- The string `decodeString(value)` leaves when the stream ends inside it:
`value.resize(len)`, then `readBytes` copies the bytes `bs` the stream still
holds to its front before it throws. -/
def cutString (len : Nat) (bs : List UInt8) : List UInt8 := bs.take len ++ List.replicate (len - bs.length) 0

/-- Reads the same length-prefixed bytes as `decodeString`. -/
def decodeBytes : Reader (List UInt8) := decodeString

def decodeUnionIndex : Reader Nat := toSizeT <$> decodeLong

/-- `arrayStart()` and `arrayNext()`: a negative block count is followed by
the block's size in bytes. -/
def decodeItemCount : Reader Nat := do
  let x ← decodeLong
  if x < 0 then
    let _ ← decodeLong
    pure (toSizeT (-x))
  else pure (toSizeT x)

/-- An array sent as `blocks`: each block's count and items, then a zero count. -/
def arrayWire (enc : α → List Token) (blocks : List (List α)) : List Token :=
  blocks.flatMap (fun b => .long b.length :: b.flatMap enc) ++ [.long 0]

def readN (item : Reader α) : Nat → Reader (List α)
  | 0 => pure []
  | m + 1 => do
    let x ← item
    let xs ← readN item m
    pure (x :: xs)

/-- `for (size_t m = d.arrayStart(); m != 0; m = d.arrayNext())` reading `m`
items a block. Every block starts with its count, so the tokens left bound the
blocks: `fuel` is that bound, and at `0` the stream is empty and the next count
read fails. -/
def arrayItems (item : Reader α) : Nat → Reader (List α)
  | 0 => throw .eof
  | fuel + 1 => do
    let m ← decodeItemCount
    if m = 0 then pure []
    else
      let xs ← readN item m
      let ys ← arrayItems item fuel
      pure (xs ++ ys)

theorem run_bind_ok {x : Reader α} {f : α → Reader β} {toks rest : List Token} {a : α}
    (h : x.run toks = .ok (a, rest)) : (x >>= f).run toks = (f a).run rest := by
  simp only [StateT.run_bind, h]; rfl

theorem run_map_ok {x : Reader α} {f : α → β} {toks rest : List Token} {a : α}
    (h : x.run toks = .ok (a, rest)) : (f <$> x).run toks = .ok (f a, rest) := by
  simp only [StateT.run_map, h]; rfl

theorem run_bind_eq_ok {x : Reader α} {f : α → Reader β} {toks rest : List Token} {b : β}
    (h : (x >>= f).run toks = .ok (b, rest)) :
    ∃ a mid, x.run toks = .ok (a, mid) ∧ (f a).run mid = .ok (b, rest) := by
  simp only [StateT.run_bind] at h
  cases hx : x.run toks with
  | error e => rw [hx] at h; cases h
  | ok p => rw [hx] at h; exact ⟨p.1, p.2, rfl, h⟩

theorem run_map_eq_ok {x : Reader α} {f : α → β} {toks rest : List Token} {b : β}
    (h : (f <$> x).run toks = .ok (b, rest)) : ∃ a, x.run toks = .ok (a, rest) ∧ b = f a := by
  simp only [StateT.run_map] at h
  cases hx : x.run toks with
  | error e => rw [hx] at h; cases h
  | ok p => rw [hx] at h; cases h; exact ⟨p.1, rfl, rfl⟩

@[simp] theorem decodeLong_run (x : Int) (rest : List Token) :
    decodeLong.run (.long x :: rest) = .ok (x, rest) := rfl

theorem toInt_range (x : BitVec 32) : -2 ^ 31 ≤ x.toInt ∧ x.toInt < 2 ^ 31 := by
  have := x.isLt
  rw [BitVec.toInt_eq_toNat_cond]
  split <;> omega

theorem ofInt_toInt (x : BitVec 32) : BitVec.ofInt 32 x.toInt = x := by
  apply BitVec.eq_of_toInt_eq
  have := toInt_range x
  rw [BitVec.toInt_ofInt, Int.bmod]
  split <;> omega

@[simp] theorem decodeInt_run (x : BitVec 32) (rest : List Token) :
    decodeInt.run (.long x.toInt :: rest) = .ok (x, rest) := by
  simp only [decodeInt, run_bind_ok (decodeLong_run _ _), if_pos (toInt_range x), ofInt_toInt]; rfl

@[simp] theorem toSizeT_natCast (k : Nat) : toSizeT k = k := by
  simp [toSizeT, Int.ofNat_nonneg]

@[simp] theorem decodeItemCount_run (n : Nat) (rest : List Token) :
    decodeItemCount.run (.long n :: rest) = .ok (n, rest) := by
  simp only [decodeItemCount, run_bind_ok (decodeLong_run _ _)]
  simp; rfl

@[simp] theorem decodeUnionIndex_run (k : Nat) (rest : List Token) :
    decodeUnionIndex.run (.long k :: rest) = .ok (k, rest) := by
  simp [decodeUnionIndex, run_map_ok (decodeLong_run _ _)]

theorem length_arrayWire (enc : α → List Token) (blocks : List (List α)) :
    blocks.length < (arrayWire enc blocks).length := by
  induction blocks with
  | nil => simp [arrayWire]
  | cons b bs ih => simp_all [arrayWire]; omega

theorem readN_run (item : Reader α) (enc : α → List Token) (xs : List α)
    (hitem : ∀ x ∈ xs, ∀ rest, item.run (enc x ++ rest) = .ok (x, rest)) (rest : List Token) :
    (readN item xs.length).run (xs.flatMap enc ++ rest) = .ok (xs, rest) := by
  induction xs with
  | nil => rfl
  | cons x xs ih =>
    simp only [readN, List.length_cons, List.flatMap_cons, List.append_assoc]
    rw [run_bind_ok (hitem x (by simp) _), run_bind_ok (ih fun y hy => hitem y (by simp [hy]))]
    rfl

theorem arrayItems_run (item : Reader α) (enc : α → List Token) (blocks : List (List α))
    (hitem : ∀ x ∈ blocks.flatten, ∀ rest, item.run (enc x ++ rest) = .ok (x, rest))
    (hne : ∀ b ∈ blocks, b ≠ []) (fuel : Nat) (hfuel : blocks.length < fuel) (rest : List Token) :
    (arrayItems item fuel).run (arrayWire enc blocks ++ rest) = .ok (blocks.flatten, rest) := by
  obtain ⟨f, rfl⟩ : ∃ f, fuel = f + 1 := ⟨fuel - 1, by omega⟩
  induction blocks generalizing f with
  | nil =>
    simp only [arrayItems, arrayWire, List.flatMap_nil, List.nil_append, List.singleton_append]
    rw [run_bind_ok (by exact_mod_cast decodeItemCount_run 0 rest)]; rfl
  | cons b bs ih =>
    have hb : b.length ≠ 0 := by simpa using hne b (by simp)
    obtain ⟨g, rfl⟩ : ∃ g, f = g + 1 := ⟨f - 1, by simp at hfuel; omega⟩
    have hbs := ih (fun x hx => hitem x (by simp_all)) (fun b' hb' => hne b' (by simp [hb'])) g
      (by simp at hfuel; omega)
    rw [arrayItems]
    simp only [arrayWire, List.flatMap_cons, List.append_assoc, List.cons_append] at hbs ⊢
    rw [run_bind_ok (decodeItemCount_run _ _), if_neg hb,
      run_bind_ok (readN_run item enc b (fun x hx => hitem x (by simp [hx])) _), run_bind_ok hbs]
    rfl

theorem readN_sound (item : Reader α) (P : α → Prop)
    (hitem : ∀ toks x rest, item.run toks = .ok (x, rest) → P x) :
    ∀ m toks xs rest, (readN item m).run toks = .ok (xs, rest) → ∀ x ∈ xs, P x
  | 0, toks, xs, rest, h => by cases h; simp
  | m + 1, toks, xs, rest, h => by
    obtain ⟨x, mid, hx, h⟩ := run_bind_eq_ok h
    obtain ⟨ys, mid', hys, h⟩ := run_bind_eq_ok h
    cases h
    intro y hy
    rcases List.mem_cons.mp hy with rfl | hy
    · exact hitem _ _ _ hx
    · exact readN_sound item P hitem m _ _ _ hys y hy

theorem arrayItems_sound (item : Reader α) (P : α → Prop)
    (hitem : ∀ toks x rest, item.run toks = .ok (x, rest) → P x) :
    ∀ fuel toks xs rest, (arrayItems item fuel).run toks = .ok (xs, rest) → ∀ x ∈ xs, P x
  | 0, toks, xs, rest, h => by cases h
  | fuel + 1, toks, xs, rest, h => by
    obtain ⟨m, mid, -, h⟩ := run_bind_eq_ok h
    by_cases hm : m = 0
    · rw [if_pos hm] at h; cases h; simp
    · rw [if_neg hm] at h
      obtain ⟨ys, mid', hys, h⟩ := run_bind_eq_ok h
      obtain ⟨zs, mid'', hzs, h⟩ := run_bind_eq_ok h
      cases h
      intro x hx
      rcases List.mem_append.mp hx with hx | hx
      · exact readN_sound item P hitem m _ _ _ hys x hx
      · exact arrayItems_sound item P hitem fuel _ _ _ hzs x hx

end AvroFds.Wire
