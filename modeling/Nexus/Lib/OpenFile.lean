import Mathlib.Data.List.Basic

/-!
# Open files

A file that is open for reading and writing: its bytes and a position.  One call
transfers a limited number of bytes at most.
-/

namespace Nexus

structure OpenFile where
  bytes : List UInt8
  position : Nat
  deriving DecidableEq

namespace OpenFile

/-- `lseek` from the start of the file. -/
def seek (f : OpenFile) (position : Nat) : OpenFile := { f with position }

/-- `read`: the bytes that are there, up to the limit. -/
def read (limit : Nat) (f : OpenFile) (n : Nat) : OpenFile × List UInt8 :=
  let bs := (f.bytes.drop f.position).take (min n limit)
  ({ f with position := f.position + bs.length }, bs)

/-- `write`: a gap before the position is filled with zeros. -/
def write (limit : Nat) (f : OpenFile) (bs : List UInt8) : OpenFile × Nat :=
  let bs := bs.take limit
  if bs = [] then (f, 0)
  else
    ({ bytes := (f.bytes ++ List.replicate (f.position - f.bytes.length) 0).take f.position ++
        (bs ++ f.bytes.drop (f.position + bs.length))
       position := f.position + bs.length }, bs.length)

/-- `ftruncate`. -/
def truncate (f : OpenFile) (n : Nat) : OpenFile :=
  { f with bytes := f.bytes.take n ++ List.replicate (n - f.bytes.length) 0 }

variable {limit : Nat} {f : OpenFile} {pre bs rest : List UInt8}

/-- A write inside a file. -/
theorem write_eq (hf : f.bytes = pre ++ rest) (hposition : f.position = pre.length)
    (hlimit : bs.length ≤ limit) :
    f.write limit bs = (⟨pre ++ (bs ++ rest.drop bs.length), pre.length + bs.length⟩, bs.length) := by
  obtain ⟨bytes, position⟩ := f
  cases hf
  cases hposition
  unfold write
  rw [List.take_of_length_le hlimit]
  have hpad : pre.length - (pre ++ rest).length = 0 := by
    rw [List.length_append]
    omega
  by_cases hnil : bs = []
  · simp [hnil]
  · simp [hnil, hpad, List.drop_append]

/-- A read inside a file. -/
theorem read_eq (hf : f.bytes = pre ++ (bs ++ rest)) (hposition : f.position = pre.length)
    (hlimit : bs.length ≤ limit) :
    f.read limit bs.length = (⟨f.bytes, pre.length + bs.length⟩, bs) := by
  unfold read
  rw [hf, hposition, Nat.min_eq_left hlimit]
  simp

/-- A file that is cut, or filled up, behind a part of it. -/
theorem truncate_eq (hf : f.bytes = pre ++ rest) {n : Nat} (hn : pre.length ≤ n) :
    ∃ rest', (f.truncate n).bytes = pre ++ rest' ∧ rest'.length = n - pre.length := by
  refine ⟨rest.take (n - pre.length) ++ List.replicate (n - f.bytes.length) 0, ?_, ?_⟩
  · unfold truncate
    rw [hf, List.take_append, List.take_of_length_le hn, List.append_assoc]
  · rw [hf]
    simp only [List.length_append, List.length_take, List.length_replicate]
    omega

end OpenFile

end Nexus
