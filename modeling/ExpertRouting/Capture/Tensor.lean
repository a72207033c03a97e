/-
  ExpertRouting.Capture.Tensor — batches that are still tensors.

  A tensor is a shape and its elements in row order, as many as the shape has places, in one
  of the number types of a router. Only tensors of rank two hold rows. Expert ids are read as
  signed 64-bit integers (reals lose their fraction and stay in range) and must fit 32 bits;
  weights are read as 32-bit reals. The rank of the ids is looked at first, then that of the
  weights, then the ids row by row.
-/

import ExpertRouting.Capture.Batch

namespace ExpertRouting

inductive Elements where
  | u8 (xs : List UInt8)
  | u32 (xs : List UInt32)
  | i64 (xs : List Int64)
  | real (f : Format) (xs : List (Binary f))

def Elements.count : Elements → Nat
  | .u8 xs => xs.length
  | .u32 xs => xs.length
  | .i64 xs => xs.length
  | .real _ xs => xs.length

def Tensor.places (shape : List Nat) : Nat := shape.foldr (· * ·) 1

@[simp] theorem Tensor.places_pair (r c : Nat) : places [r, c] = r * c := congrArg (r * ·) (Nat.mul_one c)

structure Tensor where
  shape : List Nat
  elements : Elements
  filled : elements.count = Tensor.places shape

namespace Elements

/-- As signed 64-bit integers. -/
def integers : Elements → List Int
  | .u8 xs => xs.map fun x => (x.toNat : Int)
  | .u32 xs => xs.map fun x => (x.toNat : Int)
  | .i64 xs => xs.map Int64.toInt
  | .real _ xs => xs.map (Binary.truncate Int64.minValue.toInt Int64.maxValue.toInt)

/-- As 32-bit reals. -/
def reals : Elements → List Real32
  | .u8 xs => xs.map fun x => Binary.ofNat binary32 x.toNat
  | .u32 xs => xs.map fun x => Binary.ofNat binary32 x.toNat
  | .i64 xs => xs.map fun x => Binary.ofInt binary32 x.toInt
  | .real _ xs => xs.map (Binary.convert binary32)

/-- Row `i` of `c` columns becomes column `i`. -/
def transposeList {α : Type} (r c : Nat) (xs : List α) : List α :=
  (List.range c).flatMap fun j => (List.range r).filterMap fun i => xs[i * c + j]?

theorem length_transposeList {α : Type} {r c : Nat} {xs : List α} (h : xs.length = r * c) :
    (transposeList r c xs).length = c * r := by
  have hcolumn : ∀ j ∈ List.range c, ((List.range r).filterMap fun i => xs[i * c + j]?).length = r := by
    intro j hj
    rw [List.length_filterMap_eq_countP, List.countP_eq_length.mpr, List.length_range]
    intro i hi
    have hj := List.mem_range.mp hj
    have hi := List.mem_range.mp hi
    have hplace : i * c + j < r * c := by
      calc i * c + j < i * c + c := by omega
        _ = (i + 1) * c := (Nat.succ_mul i c).symm
        _ ≤ r * c := Nat.mul_le_mul_right c hi
    rw [List.getElem?_eq_getElem (h ▸ hplace)]
    rfl
  rw [transposeList, List.length_flatMap, List.map_congr_left hcolumn, List.map_const', List.length_range,
    List.sum_replicate_nat]

def transpose (r c : Nat) : Elements → Elements
  | .u8 xs => .u8 (transposeList r c xs)
  | .u32 xs => .u32 (transposeList r c xs)
  | .i64 xs => .i64 (transposeList r c xs)
  | .real f xs => .real f (transposeList r c xs)

theorem count_transpose {r c : Nat} {e : Elements} (h : e.count = r * c) : (e.transpose r c).count = c * r := by
  cases e with
  | _ => exact length_transposeList h

end Elements

namespace Tensor

def split {α : Type} (c : Nat) : (r : Nat) → List α → List (List α)
  | 0, _ => []
  | r + 1, xs => xs.take c :: split c r (xs.drop c)

def transpose (t : Tensor) : Tensor :=
  match hshape : t.shape with
  | [r, c] =>
    { shape := [c, r]
      elements := t.elements.transpose r c
      filled := by
        have hcount : t.elements.count = r * c := by simpa [hshape] using t.filled
        simpa using Elements.count_transpose hcount }
  | _ => t

def size? (t : Tensor) : Except CaptureError (Nat × Nat) :=
  match t.shape with
  | [r, c] => .ok (r, c)
  | shape => .error (.tensorRank shape)

def expert (row : Nat) (id : Int) : Except CaptureError UInt32 :=
  if 0 ≤ id ∧ id < UInt32.size then .ok (UInt32.ofNat id.toNat)
  else .error (.expertOutOfRange row id (UInt32.size - 1))

def expertRows (row : Nat) : List (List Int) → Except CaptureError (List (List UInt32))
  | [] => .ok []
  | ids :: rest => do return (← ids.mapM (expert row)) :: (← expertRows (row + 1) rest)

def batch (ids weights : Tensor) : Except CaptureError Batch := do
  let (r, c) ← ids.size?
  let (r', c') ← weights.size?
  let experts ← expertRows 0 (split c r ids.elements.integers)
  return Batch.ofWeights experts (split c' r' weights.elements.reals)

end Tensor

end ExpertRouting
