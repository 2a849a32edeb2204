import Hnet.Five.Xrange
import Mathlib.Data.List.Perm.Basic

/-!
# `five::ObjectPoolLite`

The pool of `five/object_pool.h`: a deque used at its back only, and a factory for when it is empty.
A factory is a `std::function` that may have effects, so it is given the state it works on.
-/

namespace Hnet

/-- `objects_`, its back at the end of the list. -/
structure ObjectPoolLite (T : Type) where
  objects : List T
  deriving DecidableEq, Repr

namespace ObjectPoolLite

variable {σ T : Type}

/-- One pass of the constructor's loop. -/
def prefill (factory : σ → T × σ) (p : ObjectPoolLite T × σ) : ObjectPoolLite T × σ :=
  let made := factory p.2
  ({ objects := p.1.objects ++ [made.1] }, made.2)

/-- The constructor, with one test more than a loop over `initial` values has passes. The argument
of `xrange` is converted from `size_t` to `i64`. -/
def new (initial : UInt64) (factory : σ → T × σ) (s : σ) : Loop (ObjectPoolLite T × σ) :=
  rangeFor (xrange initial.toInt64) (fun _ => prefill factory) (initial.toNat + 1)
    ({ objects := [] }, s)

def get (pool : ObjectPoolLite T) (factory : σ → T × σ) (s : σ) : T × ObjectPoolLite T × σ :=
  match pool.objects.getLast? with
  | some object => (object, { objects := pool.objects.dropLast }, s)
  | none =>
      let made := factory s
      (made.1, pool, made.2)

def put (pool : ObjectPoolLite T) (t : T) : ObjectPoolLite T := { objects := pool.objects ++ [t] }

def size (pool : ObjectPoolLite T) : Nat := pool.objects.length

section Lemmas

variable {pool : ObjectPoolLite T} {factory : σ → T × σ} {s : σ}

@[simp]
theorem objects_put (t : T) : (pool.put t).objects = pool.objects ++ [t] := rfl

/-- The constructor leaves the pool empty, whatever its first argument. -/
theorem new_done {initial : UInt64} {p : ObjectPoolLite T × σ}
    (h : new initial factory s = .done p) : p = ({ objects := [] }, s) := rangeFor_done h

theorem new_of_xrange {initial : UInt64} {r : Xrange} (hrange : xrange initial.toInt64 = .ok r) :
    new initial factory s = .done ({ objects := [] }, s) := by
  rw [new, hrange]
  exact rangeFor_ok _ _ _

theorem get_cases (pool : ObjectPoolLite T) (factory : σ → T × σ) (s : σ) :
    (∃ rest object, pool.objects = rest ++ [object]
      ∧ pool.get factory s = (object, { objects := rest }, s)) ∨
    (pool.objects = [] ∧ pool.get factory s = ((factory s).1, pool, (factory s).2)) := by
  unfold get
  cases hlast : pool.objects.getLast? with
  | none => exact Or.inr ⟨List.getLast?_eq_none_iff.mp hlast, rfl⟩
  | some object =>
      obtain ⟨rest, hrest⟩ := List.getLast?_eq_some_iff.mp hlast
      refine Or.inl ⟨rest, object, hrest, ?_⟩
      rw [hrest, List.dropLast_concat]

end Lemmas

end ObjectPoolLite

/-! ### A pool and the objects taken from it -/

/-- An object with the number of the factory call that made it. Moving it keeps the number. -/
structure PoolObject (α : Type) where
  call : Nat
  value : α
  deriving DecidableEq, Repr

/-- The factory whose `k`-th call makes the value `values k`, with the objects made so far. -/
def makeObject {α : Type} (values : Nat → α) (made : List (PoolObject α)) :
    PoolObject α × List (PoolObject α) :=
  let object : PoolObject α := { call := made.length, value := values made.length }
  (object, made ++ [object])

/-- A pool in use: the objects the factory has made, those got and not put back, those in the pool
in the order in which they were added, and how many were outstanding at once at the most. -/
structure PoolRun (α : Type) where
  pool : ObjectPoolLite (PoolObject α)
  made : List (PoolObject α)
  outstanding : List (PoolObject α)
  added : List (PoolObject α)
  most : Nat
  deriving DecidableEq, Repr

namespace PoolRun

variable {α : Type}

def start (initial : UInt64) (values : Nat → α) : Option (PoolRun α) :=
  match ObjectPoolLite.new initial (makeObject values) [] with
  | .done (pool, made) =>
      some { pool := pool, made := made, outstanding := [], added := made, most := 0 }
  | _ => none

inductive Event where
  | get
  /-- of the `i`-th outstanding object -/
  | put (i : Nat)
  deriving DecidableEq, Repr

def step (values : Nat → α) (s : PoolRun α) : Event → Option (PoolRun α)
  | .get =>
      let got := s.pool.get (makeObject values) s.made
      some
        { pool := got.2.1
          made := got.2.2
          outstanding := s.outstanding ++ [got.1]
          added := s.added.filter fun object => object.call != got.1.call
          most := max s.most (s.outstanding.length + 1) }
  | .put i =>
      if h : i < s.outstanding.length then
        let object := s.outstanding.get ⟨i, h⟩
        some
          { s with
            pool := s.pool.put object
            outstanding := s.outstanding.eraseIdx i
            added := s.added ++ [object] }
      else
        none

end PoolRun

end Hnet
