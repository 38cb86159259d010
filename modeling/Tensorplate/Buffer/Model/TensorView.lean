import Mathlib.Data.Int.Notation
import Tensorplate.Core.Error
import Tensorplate.Lib.Word

/-!
# Tensor views

`TensorView::create` checks a shape, multiplies it out without overflow and
fills in the size where none is given. Sizes are naturals below `2 ^ 64`.
-/

namespace Tensorplate

namespace Buffer

open Lib

/-- `DType`. -/
inductive DType
  | float32
  | float16
  | bfloat16
  | int64
  | int32
  | int16
  | int8
  | uint8
  | bool
  deriving DecidableEq, Repr

/-- `Layout`. -/
inductive Layout
  | rowMajor
  | colMajor
  deriving DecidableEq, Repr

/-- `kDtypeNames`. -/
def kDtypeNames : List (DType × String) :=
  [(.float32, "float32"), (.float16, "float16"), (.bfloat16, "bfloat16"), (.int64, "int64"),
   (.int32, "int32"), (.int16, "int16"), (.int8, "int8"), (.uint8, "uint8"), (.bool, "bool")]

/-- `kLayoutNames`. -/
def kLayoutNames : List (Layout × String) := [(.rowMajor, "row_major"), (.colMajor, "col_major")]

/-- `dtype_from_string`. -/
def dtypeFromString (name : List Char) : Option DType :=
  (kDtypeNames.find? fun p => p.2.toList = name).map Prod.fst

/-- `layout_from_string`. -/
def layoutFromString (name : List Char) : Option Layout :=
  (kLayoutNames.find? fun p => p.2.toList = name).map Prod.fst

/-- `dtype_byte_width`. -/
def dtypeByteWidth : DType → ℕ
  | .float32 => 4
  | .float16 => 2
  | .bfloat16 => 2
  | .int64 => 8
  | .int32 => 4
  | .int16 => 2
  | .int8 => 1
  | .uint8 => 1
  | .bool => 1

/-- `TensorView`. -/
structure TensorView where
  dtype : DType
  shape : List ℤ
  layout : Layout
  byteOffset : ℕ
  byteSize : ℕ
  deriving DecidableEq, Repr

/-- The loop of `compute_byte_size`. -/
def multiplyOut (total : ℕ) : List ℤ → Option ℕ
  | [] => some total
  | d :: rest =>
    if d ≤ 0 then none
    else if d.toNat ≠ 0 ∧ total > (word64 - 1) / d.toNat then none
    else multiplyOut (total * d.toNat) rest

/-- `compute_byte_size`. -/
def computeByteSize (shape : List ℤ) (dtype : DType) : Option ℕ :=
  if dtypeByteWidth dtype = 0 then none else multiplyOut (dtypeByteWidth dtype) shape

/-- `TensorView::create`. -/
def TensorView.create (dtype : DType) (shape : List ℤ) (layout : Layout)
    (byteOffset byteSize : ℕ) : Except Error TensorView :=
  if dtypeByteWidth dtype = 0 then
    .error ⟨.configInvalid, "TensorView.dtype is not a recognized value", none⟩
  else if shape = [] then
    .error ⟨.shapeMismatch, "TensorView.shape must be rank >= 1", none⟩
  else if shape.any (· ≤ 0) then
    .error ⟨.shapeMismatch, "TensorView.shape entries must be >= 1; zero-volume tensors are not " ++
      "representable in v0.1.0", none⟩
  else
    match computeByteSize shape dtype with
    | none => .error
        ⟨.shapeMismatch, "TensorView byte-size computation overflowed std::size_t", none⟩
    | some computed =>
      if byteSize = 0 then .ok ⟨dtype, shape, layout, byteOffset, computed⟩
      else if byteSize < computed then
        .error ⟨.shapeMismatch, "TensorView.byte_size is smaller than product(shape) * " ++
          "dtype_byte_width(dtype)", none⟩
      else .ok ⟨dtype, shape, layout, byteOffset, byteSize⟩

end Buffer

end Tensorplate
