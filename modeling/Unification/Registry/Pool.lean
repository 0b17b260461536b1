import Unification.Registry.Basic

/-!
# Several registries side by side

A pool holds registries and tells them apart by their place in it.  A symbol
together with the place of the registry that handed it out is a handle: two
handles are the same when both parts agree, while the symbols alone are equal
as soon as their names are.
-/

namespace Unification
namespace Registry

/-- A symbol as one registry of a pool handed it out. -/
structure Handle where
  owner : Nat
  symbol : Symbol
  deriving DecidableEq

structure Pool where
  registries : List Registry

namespace Pool

def size (p : Pool) : Nat := p.registries.length

/-- One registry at place 0, to be shared by every user of the pool.  It
expects more symbols than one that is made for a single use. -/
def start : Pool := ⟨[ofConfig { initialCapacity := 10000 }]⟩

/-- Forgets every registry but the shared one. -/
def reset (p : Pool) : Pool := ⟨p.registries.take 1⟩

def registry (p : Pool) (owner : Fin p.size) : Registry := p.registries.get owner

/-- Puts a registry at the first free place, which is `p.size`. -/
def push (p : Pool) (r : Registry) : Pool := ⟨p.registries ++ [r]⟩

def set (p : Pool) (owner : Fin p.size) (r : Registry) : Pool := ⟨p.registries.set owner r⟩

@[simp] theorem size_set (p : Pool) (owner : Fin p.size) (r : Registry) :
    (p.set owner r).size = p.size := by
  simp [set, size]

@[simp] theorem size_push (p : Pool) (r : Registry) : (p.push r).size = p.size + 1 := by
  simp [push, size]

/-- The handle of a name in a registry of the pool. -/
def get (p : Pool) (owner : Fin p.size) (name : String) : Except Error (Handle × Pool) := do
  let (s, r) ← (p.registry owner).get name
  return (⟨owner, s⟩, p.set owner r)

/-- The handle of a symbol that a registry of the pool makes. -/
def generate (p : Pool) (owner : Fin p.size) (stem? : Option String) : Handle × Pool :=
  let (s, r) := (p.registry owner).generate stem?
  (⟨owner, s⟩, p.set owner r)

end Pool
end Registry
end Unification
