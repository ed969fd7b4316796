/-
  PlcBridge.Lib.Arith

  Plain machine arithmetic.  A computation on unsigned machine numbers is
  accompanied by the list of the plain operations it performs, with their
  operands; it is safe if all of them fit (`AllFit`).  Up to the first
  operation that does not, a build that wraps around and one that panics
  compute the same.
-/
import Mathlib.Algebra.Group.Nat.Defs
import Mathlib.Data.List.Basic

namespace PlcBridge.Lib

/-- A plain operation on unsigned machine numbers of `width` bits. -/
inductive PlainOp where
  | add (width a b : Nat)
  | sub (a b : Nat)
  /-- A narrowing `as`. -/
  | cast (width a : Nat)
deriving DecidableEq

/-- The exact result can be represented. -/
def PlainOp.Fits : PlainOp → Prop
  | .add width a b => a + b < 2 ^ width
  | .sub a b => b ≤ a
  | .cast width a => a < 2 ^ width

instance : DecidablePred PlainOp.Fits
  | .add width a b => inferInstanceAs (Decidable (a + b < 2 ^ width))
  | .sub a b => inferInstanceAs (Decidable (b ≤ a))
  | .cast width a => inferInstanceAs (Decidable (a < 2 ^ width))

/-- No operation overflows, underflows or loses bits. -/
def AllFit (ops : List PlainOp) : Prop := ∀ op ∈ ops, op.Fits

instance (ops : List PlainOp) : Decidable (AllFit ops) :=
  inferInstanceAs (Decidable (∀ op ∈ ops, op.Fits))

@[simp] theorem allFit_nil : AllFit [] := fun _ h => absurd h (List.not_mem_nil)

@[simp] theorem allFit_cons (op : PlainOp) (ops : List PlainOp) :
    AllFit (op :: ops) ↔ op.Fits ∧ AllFit ops := List.forall_mem_cons

@[simp] theorem allFit_append (ops ops' : List PlainOp) :
    AllFit (ops ++ ops') ↔ AllFit ops ∧ AllFit ops' := List.forall_mem_append

theorem allFit_flatMap {α : Type*} {f : α → List PlainOp} {l : List α} :
    AllFit (l.flatMap f) ↔ ∀ a ∈ l, AllFit (f a) := by
  simp only [AllFit, List.mem_flatMap]
  exact ⟨fun h a ha op hop => h op ⟨a, ha, hop⟩, fun h op ⟨a, ha, hop⟩ => h a ha op hop⟩

end PlcBridge.Lib
