import AvroFds.Wire

/-!
The state a column decoder works on: the binary decoder, the dense tensors, the
value buffer of the batch and the skipped data, threaded by `DecodeM`, whose
failed runs keep the writes made before the exception escaped.
-/

namespace AvroFds.Buffer

open Schema Wire

/-- `tensorflow::DataType` of a feature, and `T` of the decoder templates. -/
inductive DataType where
  | int32 | int64 | float | double | bool | string
  deriving Repr, DecidableEq

/-- The C++ element type of each `DataType`. -/
def DataType.Val : DataType → Type
  | .int32 => BitVec 32
  | .int64 => Int
  | .float => BitVec 32
  | .double => BitVec 64
  | .bool => Bool
  | .string => List UInt8

instance : (T : DataType) → DecidableEq T.Val
  | .int32 => inferInstanceAs (DecidableEq (BitVec 32))
  | .int64 => inferInstanceAs (DecidableEq Int)
  | .float => inferInstanceAs (DecidableEq (BitVec 32))
  | .double => inferInstanceAs (DecidableEq (BitVec 64))
  | .bool => inferInstanceAs (DecidableEq Bool)
  | .string => inferInstanceAs (DecidableEq (List UInt8))

/-- Modelled from the spec: `avro::decoder_t::Decode<T>` (avro_decoder_template.h
is not in the repository); "Int32 → decode_int; Int64 → decode_long; Float32 →
decode_float; Float64 → decode_double; Bool → decode_bool; String/Bytes →
decode_string". -/
def DataType.decode : (T : DataType) → Reader T.Val
  | .int32 => decodeInt
  | .int64 => decodeLong
  | .float => decodeFloat
  | .double => decodeDouble
  | .bool => decodeBool
  | .string => decodeString

/-- The token a writer emits for a value of `T`. -/
def DataType.encode : (T : DataType) → T.Val → Token
  | .int32, x => .long (BitVec.toInt (n := 32) x)
  | .int64, x => .long x
  | .float, x => .float x
  | .double, x => .double x
  | .bool, x => .bool x
  | .string, x => .bytes x

/-- Modelled from the spec: `sparse::ValueBuffer` (decoder_base.h is not in the
repository): one vector of values per primitive type and per values index, the
coordinates of each sparse or varlen column, and its running element count. -/
structure ValueBuffer where
  intValues : List (List (BitVec 32))
  longValues : List (List Int)
  floatValues : List (List (BitVec 32))
  doubleValues : List (List (BitVec 64))
  boolValues : List (List Bool)
  stringValues : List (List (List UInt8))
  indices : List (List Int)
  numOfElements : List Nat

namespace ValueBuffer

/-- `GetValuesBuffer<T>(buffer)`. -/
def values (b : ValueBuffer) : (T : DataType) → List (List T.Val)
  | .int32 => b.intValues
  | .int64 => b.longValues
  | .float => b.floatValues
  | .double => b.doubleValues
  | .bool => b.boolValues
  | .string => b.stringValues

def setValues (b : ValueBuffer) : (T : DataType) → List (List T.Val) → ValueBuffer
  | .int32, vs => { b with intValues := vs }
  | .int64, vs => { b with longValues := vs }
  | .float, vs => { b with floatValues := vs }
  | .double, vs => { b with doubleValues := vs }
  | .bool, vs => { b with boolValues := vs }
  | .string, vs => { b with stringValues := vs }

@[simp] theorem values_setValues (b : ValueBuffer) (T : DataType) (vs : List (List T.Val)) :
    (b.setValues T vs).values T = vs := by
  cases T <;> rfl

@[simp] theorem indices_setValues (b : ValueBuffer) (T : DataType) (vs : List (List T.Val)) :
    (b.setValues T vs).indices = b.indices := by
  cases T <;> rfl

@[simp] theorem setValues_values (b : ValueBuffer) (T : DataType) : b.setValues T (b.values T) = b := by
  cases T <;> rfl

@[simp] theorem setValues_setValues (b : ValueBuffer) (T : DataType) (vs ws : List (List T.Val)) :
    (b.setValues T vs).setValues T ws = b.setValues T ws := by
  cases T <;> rfl

end ValueBuffer

/-- `tensorflow::Tensor` of a dense feature: its type, shape and flat values. -/
structure Tensor where
  dtype : DataType
  shape : List Nat
  flat : List dtype.Val

/-- What a column decoder is handed: `avro::DecoderPtr& decoder`,
`std::vector<Tensor>& dense_tensors`, `ValueBuffer& buffer` and
`std::vector<avro::GenericDatum>& skipped_data`. -/
structure Machine where
  input : List Token
  denseTensors : List Tensor
  buffer : ValueBuffer
  skippedData : List GenericDatum

theorem Machine.with_input_eq {s : Machine} {rest : List Token} (h : s.input = rest) :
    { s with input := rest } = s := by
  cases s; cases h; rfl

/-- A call: its result or the exception it throws, and in both cases the state
it leaves. -/
abbrev DecodeM := EStateM Exception Machine

/-- A primitive read of the binary decoder. -/
def read (r : Reader α) : DecodeM α := fun s =>
  match r.run s.input with
  | .ok (a, rest) => .ok a { s with input := rest }
  | .error e => .error e s

/-- `size_t` arithmetic. -/
def wrap (n : Nat) : Nat := n % 2 ^ 64

section Monad

variable {ε σ : Type} {x : EStateM ε σ α} {f : α → EStateM ε σ β} {s s' : σ} {a : α}

theorem bind_ok (h : x s = .ok a s') : (x >>= f) s = f a s' := by
  simp only [bind, EStateM.bind, h]

theorem bind_error (h : x s = .error e s') : (x >>= f) s = .error e s' := by
  simp only [bind, EStateM.bind, h]

theorem bind_eq_ok {b : β} (h : (x >>= f) s = .ok b s') :
    ∃ a s₁, x s = .ok a s₁ ∧ f a s₁ = .ok b s' := by
  simp only [bind, EStateM.bind] at h
  split at h
  · exact ⟨_, _, ‹_›, h⟩
  · cases h

theorem bind_eq_error (h : (x >>= f) s = .error e s') :
    x s = .error e s' ∨ ∃ a s₁, x s = .ok a s₁ ∧ f a s₁ = .error e s' := by
  simp only [bind, EStateM.bind] at h
  split at h
  · exact .inr ⟨_, _, ‹_›, h⟩
  · cases h; exact .inl ‹_›

@[simp] theorem pure_run (a : α) (s : σ) : (pure a : EStateM ε σ α) s = .ok a s := rfl

@[simp] theorem get_run (s : σ) : (get : EStateM ε σ σ) s = .ok s s := rfl

@[simp] theorem modify_run (g : σ → σ) (s : σ) : (modify g : EStateM ε σ Unit) s = .ok () (g s) := rfl

@[simp] theorem throw_run (e : ε) (s : σ) : (throw e : EStateM ε σ α) s = .error e s := rfl

end Monad

/-- The state a call leaves, whether it returns or throws. -/
def leftState : EStateM.Result ε σ α → σ
  | .ok _ s => s
  | .error _ s => s

variable {s s' : Machine} {a : α}

theorem skippedData_read {r : Reader α} {res : EStateM.Result Exception Machine α} (h : read r s = res) :
    (leftState res).skippedData = s.skippedData := by
  subst h
  unfold read
  split <;> rfl

theorem read_ok {r : Reader α} {rest : List Token} (h : r.run s.input = .ok (a, rest)) :
    read r s = .ok a { s with input := rest } := by
  simp only [read, h]

theorem read_error {r : Reader α} (h : r.run s.input = .error e) : read r s = .error e s := by
  simp only [read, h]

theorem read_cases (r : Reader α) (s : Machine) :
    (∃ a rest, read r s = .ok a { s with input := rest }) ∨ ∃ e, read r s = .error e s := by
  cases h : r.run s.input with
  | ok p => exact .inl ⟨p.1, p.2, read_ok h⟩
  | error e => exact .inr ⟨e, read_error h⟩

theorem read_eq_ok {r : Reader α} (h : read r s = .ok a s') :
    r.run s.input = .ok (a, s'.input) ∧ s' = { s with input := s'.input } := by
  simp only [read] at h
  split at h <;> cases h
  exact ⟨‹_›, rfl⟩

theorem read_eq_error {r : Reader α} (h : read r s = .error e s') : r.run s.input = .error e ∧ s' = s := by
  simp only [read] at h
  split at h <;> cases h
  exact ⟨‹_›, rfl⟩

end AvroFds.Buffer
