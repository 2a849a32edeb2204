import Hnet.Five.ObjectPool
import Hnet.Lts
import Mathlib.Data.List.Perm.Basic
import Mathlib.Data.List.Range

/-!
# A pool is a stack

Every object the factory has made is in one place, outstanding or in the pool, and a `get` returns
the object that was added last. The factory is called only for a `get` that finds nothing, so the
calls are as many as the most objects that were ever outstanding. The constructor's loop is one
over an `xrange` and adds nothing, so the objects that `initial` asks for are never there.
-/

namespace Hnet

open Lts

variable {α : Type}

namespace PoolRun

/-- A pool shaped like a stack that has been given `initial` objects. -/
structure StackShaped (values : Nat → α) (initial : Nat) (s : PoolRun α) : Prop where
  distinct : ((s.outstanding ++ s.pool.objects).map PoolObject.call).Nodup
  conserved : (s.outstanding ++ s.pool.objects).Perm s.made
  lastAdded : s.pool.objects ≠ [] →
    s.added.getLast? = some (s.pool.get (makeObject values) s.made).1
  calls : s.made.length = max initial s.most

/-- A pool of `initial` objects is constructed, and it is a stack throughout its use. -/
def BehavesAsStack (initial : UInt64) (values : Nat → α) (es : List Event) : Prop :=
  ∃ s, start initial values = some s ∧
    Throughout (step values) (StackShaped values initial.toNat) s es

/-- What holds of a pool whatever the size it was constructed with. -/
structure PoolInv (s : PoolRun α) : Prop where
  added : s.added = s.pool.objects
  conserved : (s.outstanding ++ s.pool.objects).Perm s.made
  numbered : s.made.map PoolObject.call = List.range s.made.length
  calls : s.made.length = s.most

variable {s s' : PoolRun α} {values : Nat → α}

theorem start_eq {initial : UInt64} (h : start initial values = some s) :
    s = { pool := { objects := [] }, made := [], outstanding := [], added := [], most := 0 } := by
  unfold start at h
  cases hnew : ObjectPoolLite.new initial (makeObject values) [] with
  | done p =>
      rw [hnew, ObjectPoolLite.new_done hnew] at h
      exact (Option.some.inj h).symm
  | failed fault =>
      rw [hnew] at h
      cases h
  | running =>
      rw [hnew] at h
      cases h

theorem step_put {i : Nat} (h : step values s (.put i) = some s') :
    ∃ hlt : i < s.outstanding.length, s' =
      { s with
        pool := s.pool.put (s.outstanding.get ⟨i, hlt⟩)
        outstanding := s.outstanding.eraseIdx i
        added := s.added ++ [s.outstanding.get ⟨i, hlt⟩] } := by
  simp only [step] at h
  split at h
  · rename_i hlt
    exact ⟨hlt, (Option.some.inj h).symm⟩
  · cases h

namespace PoolInv

theorem init :
    PoolInv ({ pool := { objects := [] }, made := [], outstanding := [], added := [], most := 0 } :
      PoolRun α) where
  added := rfl
  conserved := .refl _
  numbered := rfl
  calls := rfl

theorem distinct (hinv : PoolInv s) :
    ((s.outstanding ++ s.pool.objects).map PoolObject.call).Nodup := by
  rw [(hinv.conserved.map PoolObject.call).nodup_iff, hinv.numbered]
  exact List.nodup_range

theorem length_eq (hinv : PoolInv s) :
    s.outstanding.length + s.pool.objects.length = s.made.length := by
  rw [← List.length_append]
  exact hinv.conserved.length_eq

/-- A pool that was given nothing at the start is a stack. -/
theorem stackShaped (hinv : PoolInv s) {initial : Nat} (hinitial : initial ≤ s.most) :
    StackShaped values initial s where
  distinct := hinv.distinct
  conserved := hinv.conserved
  lastAdded hne := by
    rcases s.pool.get_cases (makeObject values) s.made with
      ⟨rest, object, hobjects, hget⟩ | ⟨hempty, _⟩
    · rw [hinv.added, hobjects, hget, List.getLast?_concat]
    · exact absurd hempty hne
  calls := by rw [hinv.calls, max_eq_right hinitial]

theorem put {i : Nat} (hinv : PoolInv s) (h : step values s (.put i) = some s') : PoolInv s' := by
  obtain ⟨hlt, rfl⟩ := step_put h
  refine ⟨?_, ?_, hinv.numbered, hinv.calls⟩
  · rw [ObjectPoolLite.objects_put, hinv.added]
  · have hmoved :
        (s.outstanding.eraseIdx i ++ (s.pool.objects ++ [s.outstanding.get ⟨i, hlt⟩])).Perm
          (s.outstanding ++ s.pool.objects) := by
      rw [← List.append_assoc]
      refine (List.perm_append_singleton _ _).trans ?_
      exact (List.getElem_cons_eraseIdx_perm hlt).append_right s.pool.objects
    exact hmoved.trans hinv.conserved

/-- A `get` that finds an object takes the last one off. -/
theorem get_object {rest : List (PoolObject α)} {object : PoolObject α} (hinv : PoolInv s)
    (hobjects : s.pool.objects = rest ++ [object])
    (hget : s.pool.get (makeObject values) s.made = (object, { objects := rest }, s.made))
    (h : step values s .get = some s') : PoolInv s' := by
  have hdistinct := hinv.distinct
  have hlength := hinv.length_eq
  have hcalls := hinv.calls
  simp only [step, hget] at h
  obtain rfl := Option.some.inj h
  rw [hobjects] at hdistinct hlength
  refine ⟨?_, ?_, hinv.numbered, ?_⟩
  · rw [List.map_append, List.map_append] at hdistinct
    have hrest := (List.nodup_append.mp (List.nodup_append.mp hdistinct).2.1).2.2
    simp only [hinv.added, hobjects, List.filter_append]
    have hkeep : rest.filter (fun x => x.call != object.call) = rest := by
      refine List.filter_eq_self.mpr fun x hx => bne_iff_ne.mpr ?_
      exact hrest _ (List.mem_map_of_mem hx) _ (List.mem_singleton_self _)
    rw [hkeep]
    simp
  · have hconserved := hinv.conserved
    rw [hobjects] at hconserved
    refine List.Perm.trans ?_ hconserved
    rw [List.append_assoc]
    have hswap : ([object] ++ rest).Perm (rest ++ [object]) := List.perm_append_comm
    exact hswap.append_left s.outstanding
  · simp only [List.length_append, List.length_singleton] at hlength
    show s.made.length = max s.most (s.outstanding.length + 1)
    omega

/-- A `get` that finds nothing calls the factory, at a time when everything is outstanding. -/
theorem get_empty (hinv : PoolInv s) (hobjects : s.pool.objects = [])
    (hget : s.pool.get (makeObject values) s.made
      = ((makeObject values s.made).1, s.pool, (makeObject values s.made).2))
    (h : step values s .get = some s') : PoolInv s' := by
  have hlength := hinv.length_eq
  have hcalls := hinv.calls
  simp only [step, hget] at h
  obtain rfl := Option.some.inj h
  rw [hobjects, List.length_nil, Nat.add_zero] at hlength
  have hadded : s.added = [] := hinv.added.trans hobjects
  refine ⟨?_, ?_, ?_, ?_⟩
  · rw [hadded, hobjects]
    rfl
  · have hconserved := hinv.conserved
    rw [hobjects, List.append_nil] at hconserved
    rw [hobjects, List.append_nil]
    exact hconserved.append_right _
  · simp only [makeObject, List.map_append, hinv.numbered, List.length_append,
      List.length_singleton, List.range_succ]
    rfl
  · simp only [makeObject, List.length_append, List.length_singleton]
    omega

theorem step {e : Event} (hinv : PoolInv s) (h : PoolRun.step values s e = some s') :
    PoolInv s' := by
  cases e with
  | get =>
      rcases s.pool.get_cases (makeObject values) s.made with
        ⟨rest, object, hobjects, hget⟩ | ⟨hobjects, hget⟩
      · exact hinv.get_object hobjects hget h
      · exact hinv.get_empty hobjects hget h
  | put i => exact hinv.put h

end PoolInv

/-- **A pool behaves as a stack of `initial` objects exactly when it is asked for none.** -/
theorem behavesAsStack_iff (initial : UInt64) (values : Nat → α) (es : List Event) :
    BehavesAsStack initial values es ↔ initial = 0 := by
  constructor
  · rintro ⟨s, hstart, hthroughout⟩
    have hcalls := hthroughout.first.calls
    rw [start_eq hstart] at hcalls
    have hzero : initial.toNat = 0 := by
      simpa using hcalls.symm
    exact UInt64.toNat_inj.mp hzero
  · rintro rfl
    refine ⟨_, rfl, ?_⟩
    have hall : Throughout (PoolRun.step values) PoolInv _ es :=
      throughout_of_invariant es PoolInv.init fun s e s' hinv hstep => hinv.step hstep
    exact hall.imp fun s hinv => hinv.stackShaped (Nat.zero_le _)

/-- The pools of the dispatch loop ask for ten objects and are constructed empty. -/
theorem not_behavesAsStack_ten : ¬ BehavesAsStack 10 (fun call => call) [] := by
  rintro ⟨s, hstart, hthroughout⟩
  have hcalls := hthroughout.first.calls
  rw [start_eq hstart] at hcalls
  exact absurd hcalls (by decide)

end PoolRun

end Hnet
