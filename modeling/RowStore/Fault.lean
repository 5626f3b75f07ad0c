/-! Faults and failures: how an operation stops without a result. -/
namespace RowStore

/-- A fault is a broken promise inside the store; no operation recovers from one. -/
inductive Fault where
  /-- A size or an offset does not fit a 64-bit word. -/
  | overflow
  /-- Bytes were asked for outside a buffer. -/
  | outOfBounds
  /-- A value was to be encoded for a column that does not take it. -/
  | rejectedValue
  /-- More memory was to be reserved than can be addressed. -/
  | unaddressable
  /-- A handle names no loaded page. -/
  | danglingHandle
  deriving DecidableEq, Repr

/-- An operation stops with an error, which its caller sees, or with a fault. -/
inductive Failure (ε : Type) where
  | error (e : ε)
  | fault (f : Fault)
  deriving DecidableEq, Repr

/-- One more than the largest 64-bit word. -/
def wordLimit : Nat := 0x10000000000000000

/-- A size computed in 64-bit words. -/
def checkedWord (n : Nat) : Except Fault Nat :=
  if n < wordLimit then .ok n else .error .overflow

variable {ε δ α : Type}

/-- The error of a failure passes through `f`; a fault stays. -/
def Failure.map (f : ε → δ) : Failure ε → Failure δ
  | .error e => .error (f e)
  | .fault x => .fault x

/-- A computation whose only failures are faults. -/
def orFault (r : Except Fault α) : Except (Failure ε) α := r.mapError .fault

end RowStore
