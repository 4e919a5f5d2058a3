import Mathlib.Data.List.Basic
import Mathlib.Tactic

/-!
# The flushing dictionary

`cms/service/flushingdict.py`: key-values wait in `d` until a flush takes all of
them as a batch, and a batch stays visible in `_flushing` until the callback of
its flush has returned.  A flush is two steps here, because the callback is
awaited in between and other flushes may start meanwhile; a batch has an identity
since the code compares batches with `is`.
-/

namespace ContestManagement
namespace Service

/-- `FlushingDict`; dictionaries are association lists in insertion order. -/
structure FlushingDict (K V : Type) where
  d : List (K × V)
  flushing : List (Nat × List (K × V))
  nextBatch : Nat
  deriving Repr

namespace FlushingDict

variable {K V : Type}

/-- An empty dictionary. -/
def empty (K V : Type) : FlushingDict K V := ⟨[], [], 0⟩

variable [DecidableEq K]

/-- `self.d[key] = value`: a present key keeps its place. -/
def setItem (key : K) (value : V) : List (K × V) → List (K × V)
  | [] => [(key, value)]
  | (k, v) :: rest => if k = key then (key, value) :: rest else (k, v) :: setItem key value rest

/-- `add`. -/
def add (f : FlushingDict K V) (key : K) (value : V) : FlushingDict K V :=
  { f with d := setItem key value f.d }

omit [DecidableEq K] in
/-- The first half of `flush`: take everything as a batch.  The batch is also the
list of items that the callback gets. -/
def takeBatch (f : FlushingDict K V) : (Nat × List (K × V)) × FlushingDict K V :=
  ((f.nextBatch, f.d),
    { d := [], flushing := f.flushing ++ [(f.nextBatch, f.d)], nextBatch := f.nextBatch + 1 })

omit [DecidableEq K] in
/-- The second half of `flush`: the callback has returned. -/
def dropBatch (f : FlushingDict K V) (batch : Nat) : FlushingDict K V :=
  { f with flushing := f.flushing.filter fun b => b.1 ≠ batch }

omit [DecidableEq K] in
/-- `discard`: the values removed, pending ones first. -/
def discard (f : FlushingDict K V) (predicate : K → Bool) : List V × FlushingDict K V :=
  ((f.d :: f.flushing.map Prod.snd).flatMap fun mapping =>
      (mapping.filter fun kv => predicate kv.1).map Prod.snd,
    { f with
      d := f.d.filter fun kv => !predicate kv.1
      flushing := f.flushing.map fun b => (b.1, b.2.filter fun kv => !predicate kv.1) })

/-- All key-values, pending or being flushed. -/
def entries (f : FlushingDict K V) : List (K × V) :=
  f.d ++ f.flushing.flatMap Prod.snd

/-- `key in dict`. -/
def contains (f : FlushingDict K V) (key : K) : Bool :=
  (f.d.any fun kv => kv.1 = key) || f.flushing.any fun b => b.2.any fun kv => kv.1 = key

end FlushingDict

end Service
end ContestManagement
