import Hnet.Five.RingBuffer
import Hnet.Lts
import Mathlib.Data.List.TakeDrop

/-!
# When a ring buffer is a FIFO

The indices never wrap, so the buffer takes as many elements in all as it has room for, and `size`
cannot tell a full buffer from an empty one. Apart from that it is a FIFO.
-/

namespace Hnet

open Lts

variable {T : Type}

namespace FifoRun

/-- A bounded FIFO: no access was outside of the vector, what has been popped is what was pushed
first, and `size()` is the number of stored elements. -/
def IsFifo (s : FifoRun T) : Prop :=
  ∃ rb, s.buffer = some rb ∧ s.popped = s.pushed.take s.popped.length ∧ rb.size.toNat = s.stored

/-- A push is among the first `maxSize` ones and does not fill the buffer up. -/
def Fits (maxSize : Nat) (s : FifoRun T) : Event T → Prop
  | .push _ => s.pushed.length < maxSize ∧ s.stored + 1 < maxSize
  | .pop => True

instance (maxSize : Nat) (s : FifoRun T) (e : Event T) : Decidable (Fits maxSize s e) := by
  cases e <;> unfold Fits <;> infer_instance

/-- The vector begins with what has been pushed, and the indices count pushes and pops. -/
structure Holds (maxSize : Nat) (s : FifoRun T) (rb : RingBuffer T) : Prop where
  buffer : s.buffer = some rb
  length : rb.buffer.length = maxSize
  head : rb.head.toNat = s.pushed.length
  tail : rb.tail.toNat = s.popped.length
  pushed : rb.buffer.take s.pushed.length = s.pushed
  popped : s.popped = s.pushed.take s.popped.length

variable {maxSize : Nat} {s s' : FifoRun T} {rb rb' : RingBuffer T}

theorem popped_le (h : s.popped = s.pushed.take s.popped.length) :
    s.popped.length ≤ s.pushed.length := by
  have hlen := congrArg List.length h
  rw [List.length_take] at hlen
  omega

theorem step_push {val : T} (h : step maxSize s (.push val) = some s') :
    ∃ rb, s.buffer = some rb ∧ s.stored < maxSize ∧
      s' = { s with buffer := rb.pushBackUnchecked val, pushed := s.pushed ++ [val] } := by
  obtain ⟨rb, hbuffer, hstep⟩ := Option.bind_eq_some_iff.mp h
  split at hstep
  · rename_i hlt
    exact ⟨rb, hbuffer, hlt, (Option.some.inj hstep).symm⟩
  · cases hstep

theorem step_pop (h : step maxSize s .pop = some s') :
    ∃ rb, s.buffer = some rb ∧ 0 < s.stored ∧
      ((∃ val rb', rb.popUnchecked = some (val, rb')
        ∧ s' = { s with buffer := some rb', popped := s.popped ++ [val] }) ∨
      (rb.popUnchecked = none ∧ s' = { s with buffer := none })) := by
  obtain ⟨rb, hbuffer, hstep⟩ := Option.bind_eq_some_iff.mp h
  split at hstep
  · rename_i hpos
    refine ⟨rb, hbuffer, hpos, ?_⟩
    cases hpop : rb.popUnchecked with
    | none =>
        rw [hpop] at hstep
        exact Or.inr ⟨rfl, (Option.some.inj hstep).symm⟩
    | some found =>
        rw [hpop] at hstep
        exact Or.inl ⟨found.1, found.2, rfl, (Option.some.inj hstep).symm⟩
  · cases hstep

namespace Holds

theorem init [Inhabited T] (hlt : maxSize < 2 ^ 63) :
    Holds maxSize (FifoRun.init maxSize hlt) (RingBuffer.new maxSize hlt : RingBuffer T) where
  buffer := rfl
  length := List.length_replicate
  head := rfl
  tail := rfl
  pushed := rfl
  popped := rfl

theorem pushed_le (h : Holds maxSize s rb) : s.pushed.length ≤ maxSize := by
  have hlen := congrArg List.length h.pushed
  rw [List.length_take, h.length] at hlen
  omega

/-- `size()` counts modulo the capacity. -/
theorem size (h : Holds maxSize s rb) (hpos : 0 < maxSize) :
    rb.size.toNat = s.stored % maxSize := by
  have hle := popped_le h.popped
  have hhead := h.pushed_le
  rw [RingBuffer.toNat_size, h.head, h.tail, h.length, stored]
  · rw [h.head, h.tail]
    exact hle
  · rw [h.head, h.length]
    exact hhead
  · rwa [h.length]

theorem isFifo (h : Holds maxSize s rb) (hfull : s.stored < maxSize) : IsFifo s :=
  ⟨rb, h.buffer, h.popped, by rw [h.size (Nat.zero_lt_of_lt hfull), Nat.mod_eq_of_lt hfull]⟩

theorem push {val : T} (h : Holds maxSize s rb) (hpush : rb.pushBackUnchecked val = some rb') :
    Holds maxSize { s with buffer := some rb', pushed := s.pushed ++ [val] } rb' := by
  obtain ⟨hlt, hbuffer, hhead, htail⟩ := RingBuffer.pushBackUnchecked_some hpush
  have hle := popped_le h.popped
  have hbound := rb.length_lt
  have hlength := h.length
  rw [h.head] at hlt hbuffer
  refine ⟨rfl, ?_, ?_, ?_, ?_, ?_⟩
  · rw [hbuffer, List.length_set, h.length]
  · have hone : (1 : UInt64).toNat = 1 := rfl
    rw [hhead, UInt64.toNat_add, h.head, hone, List.length_append, List.length_singleton]
    exact Nat.mod_eq_of_lt (by omega)
  · rw [htail]
    exact h.tail
  · rw [hbuffer, List.length_append, List.length_singleton, List.take_add_one, List.take_set,
      List.set_eq_of_length_le (by rw [List.length_take]; omega), h.pushed,
      List.getElem?_set_self hlt]
    rfl
  · show s.popped = (s.pushed ++ [val]).take s.popped.length
    rw [List.take_append_of_le_length hle]
    exact h.popped

/-- A pop of a non-empty buffer finds the oldest element. -/
theorem pop (h : Holds maxSize s rb) (hpos : 0 < s.stored) :
    ∃ val rb', rb.popUnchecked = some (val, rb') ∧
      Holds maxSize { s with buffer := some rb', popped := s.popped ++ [val] } rb' := by
  have hlt : s.popped.length < s.pushed.length := Nat.lt_of_sub_pos hpos
  have hbound := rb.length_lt
  have hlength := h.length
  have hle := h.pushed_le
  have holdest : rb.buffer[rb.tail.toNat]? = some (s.pushed.get ⟨s.popped.length, hlt⟩) := by
    have hprefix := congrArg (fun vals : List T => vals[s.popped.length]?) h.pushed
    rw [List.getElem?_take_of_lt hlt] at hprefix
    rw [h.tail, hprefix, List.get_eq_getElem, List.getElem?_eq_getElem hlt]
  have hpop : rb.popUnchecked = some (s.pushed.get ⟨s.popped.length, hlt⟩,
      { rb with tail := rb.tail + 1 }) := by
    rw [RingBuffer.popUnchecked, holdest]
    rfl
  refine ⟨_, _, hpop, rfl, h.length, h.head, ?_, h.pushed, ?_⟩
  · have hone : (1 : UInt64).toNat = 1 := rfl
    show (rb.tail + 1).toNat = (s.popped ++ [_]).length
    rw [UInt64.toNat_add, h.tail, hone, List.length_append, List.length_singleton]
    exact Nat.mod_eq_of_lt (by omega)
  · show s.popped ++ [s.pushed.get ⟨s.popped.length, hlt⟩]
      = s.pushed.take (s.popped ++ [s.pushed.get ⟨s.popped.length, hlt⟩]).length
    rw [List.length_append, List.length_singleton, List.take_add_one, ← h.popped,
      List.getElem?_eq_getElem hlt]
    rfl

end Holds

/-- The buffer holds what is stored and is not full. -/
def HasRoom (maxSize : Nat) (s : FifoRun T) : Prop :=
  (∃ rb, Holds maxSize s rb) ∧ s.stored < maxSize

theorem stored_push {val : T} {buffer : Option (RingBuffer T)}
    (hle : s.popped.length ≤ s.pushed.length) :
    stored { s with buffer := buffer, pushed := s.pushed ++ [val] } = s.stored + 1 := by
  simp only [stored, List.length_append, List.length_singleton]
  omega

theorem step_hasRoom {e : Event T} (h : HasRoom maxSize s) (hfits : Fits maxSize s e)
    (hstep : step maxSize s e = some s') : HasRoom maxSize s' := by
  obtain ⟨⟨rb, hholds⟩, hfull⟩ := h
  have hle := popped_le hholds.popped
  cases e with
  | push val =>
      obtain ⟨rb₀, hbuffer, _, rfl⟩ := step_push hstep
      obtain rfl : rb = rb₀ := Option.some.inj (hholds.buffer.symm.trans hbuffer)
      cases hpush : rb.pushBackUnchecked val with
      | none =>
          have houtside := RingBuffer.pushBackUnchecked_eq_none_iff.mp hpush
          rw [hholds.length, hholds.head] at houtside
          exact absurd hfits.1 (Nat.not_lt.mpr houtside)
      | some rb' =>
          refine ⟨⟨rb', hholds.push hpush⟩, ?_⟩
          rw [stored_push hle]
          exact hfits.2
  | pop =>
      obtain ⟨rb₀, hbuffer, hpos, hcases⟩ := step_pop hstep
      obtain rfl : rb = rb₀ := Option.some.inj (hholds.buffer.symm.trans hbuffer)
      obtain ⟨val, rb', hpop, hholds'⟩ := hholds.pop hpos
      rcases hcases with ⟨val', rb'', hpop', rfl⟩ | ⟨hnone, _⟩
      · obtain ⟨rfl, rfl⟩ := Prod.mk.inj (Option.some.inj (hpop.symm.trans hpop'))
        refine ⟨⟨rb', hholds'⟩, ?_⟩
        unfold stored at hfull ⊢
        simp only [List.length_append, List.length_singleton]
        omega
      · cases hpop.symm.trans hnone

/-- One push too many writes behind the vector, and one that fills the buffer up makes `size()`
zero. -/
theorem not_isFifo_of_not_fits {e : Event T} (h : HasRoom maxSize s) (hfits : ¬ Fits maxSize s e)
    (hstep : step maxSize s e = some s') : ¬ IsFifo s' := by
  rintro ⟨rb', hbuffer', _, hsize⟩
  obtain ⟨⟨rb, hholds⟩, hfull⟩ := h
  have hle := popped_le hholds.popped
  have hpos : 0 < maxSize := Nat.zero_lt_of_lt hfull
  cases e with
  | pop => exact hfits trivial
  | push val =>
      obtain ⟨rb₀, hbuffer, _, rfl⟩ := step_push hstep
      obtain rfl : rb = rb₀ := Option.some.inj (hholds.buffer.symm.trans hbuffer)
      have hinside := (RingBuffer.pushBackUnchecked_some hbuffer').1
      rw [hholds.head, hholds.length] at hinside
      have hlast : s.stored + 1 = maxSize := by
        have hnot : ¬ s.stored + 1 < maxSize := fun hroom => hfits ⟨hinside, hroom⟩
        omega
      have hzero := (hholds.push hbuffer').size hpos
      rw [stored_push hle, hlast, Nat.mod_self] at hzero
      rw [stored_push hle, hlast, hzero] at hsize
      omega

/-- **A ring buffer is a FIFO exactly as long as it fits** into the vector as a whole and never
fills it up. -/
theorem isFifo_throughout_iff [Inhabited T] (maxSize : Nat) (hpos : 0 < maxSize)
    (hlt : maxSize < 2 ^ 63) (es : List (Event T)) :
    Throughout (step maxSize) IsFifo (init maxSize hlt) es
      ↔ Along (step maxSize) (Fits maxSize) (init maxSize hlt) es := by
  have hinit : HasRoom maxSize (init maxSize hlt : FifoRun T) := ⟨⟨_, Holds.init hlt⟩, hpos⟩
  refine throughout_iff_along es hinit ?_ ?_ ?_
  · rintro s ⟨⟨rb, hholds⟩, hfull⟩
    exact hholds.isFifo hfull
  · exact fun s e s' hroom hfits hstep => step_hasRoom hroom hfits hstep
  · exact fun s e s' hroom hfits hstep => not_isFifo_of_not_fits hroom hfits hstep

theorem isFifo_twoSlots : Throughout (step 2) IsFifo (init 2 (by decide)) [.push 7, .pop, .pop] :=
  (isFifo_throughout_iff 2 (by decide) (by decide) [.push 7, .pop, .pop]).mpr (by decide)

/-- A buffer of one element reports the size zero after a push. -/
theorem not_isFifo_oneSlot : ¬ Throughout (step 1) IsFifo (init 1 (by decide)) [.push 7] := by
  intro h
  have hroom : HasRoom 1 (init 1 (by decide) : FifoRun Nat) :=
    ⟨⟨_, Holds.init (by decide)⟩, Nat.zero_lt_one⟩
  exact not_isFifo_of_not_fits (e := .push 7) hroom (by decide) rfl (h.2 _ rfl).first

end FifoRun

end Hnet
