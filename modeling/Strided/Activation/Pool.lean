import Strided.Activation.Basic
/-!
# Shared activations

A pool hands out descriptors, one for each activation in use: a request for an activation whose
descriptor somebody holds yields that descriptor, any other request a new one.  The pool does not
keep a descriptor alive.  Who holds what is told to it with each request, and a request that makes
a descriptor first forgets every one that nobody holds.
-/

namespace Strided

/-- A handle on a shared activation; two handles are the same object when their numbers are. -/
structure Descriptor where
  id : Nat
  activation : Activation
  deriving DecidableEq, Repr

/-- The descriptors made so far, less those forgotten, and the number of the next one. -/
structure Pool where
  entries : List Descriptor
  fresh : Nat
  deriving DecidableEq, Repr

namespace Pool

/-- The pool that has made no descriptor yet. -/
def empty : Pool :=
  ⟨[], 0⟩

/-- The descriptors that somebody holds. -/
def liveEntries (pool : Pool) (held : List Nat) : List Descriptor :=
  pool.entries.filter fun entry => held.contains entry.id

/-- Number of descriptors that somebody holds. -/
def live (pool : Pool) (held : List Nat) : Nat :=
  (pool.liveEntries held).length

/-- The descriptor of an activation, made if nobody holds one. -/
def request (pool : Pool) (held : List Nat) (activation : Activation) : Descriptor × Pool :=
  match (pool.liveEntries held).find? fun entry => entry.activation == activation with
  | some entry => (entry, pool)
  | none =>
    let entry : Descriptor := ⟨pool.fresh, activation⟩
    (entry, ⟨pool.liveEntries held ++ [entry], pool.fresh + 1⟩)

end Pool

end Strided
