import Hnet.Proof.BufferBounds

/-!
# What the buffers of `dispatch_loop` contain

A write changes the buffer it is for and no other. So a handler that is entered with what was
received into its request makes a reply of the same bytes, twice, and leaves the buffers of all
others as they are.
-/

namespace Hnet.Netring

variable {A : Type}

namespace Heap

variable {heap heap' : Heap} {b : BufId} {base : Option BufId} {bytes src : Bytes}

/-! ### The bytes of an allocation -/

theorem live_malloc {n : Nat} (h : heap.size (some b) = some n) (m : Nat) :
    (heap.malloc m).2.live b = heap.live b := Function.update_of_ne (size_lt h).ne _ _

theorem live_free (h : base ≠ some b) : (heap.free base).live b = heap.live b := by
  cases base with
  | none => rfl
  | some c => exact Function.update_of_ne (fun heq => h (congrArg some heq.symm)) _ _

theorem live_write (h : base ≠ some b) (off : Nat) :
    (heap.write base off src).live b = heap.live b := by
  cases base with
  | none => rfl
  | some c => exact Function.update_of_ne (fun heq => h (congrArg some heq.symm)) _ _

/-- The allocation begins with these bytes. -/
def Begins (heap : Heap) (base : Option BufId) (bytes : Bytes) : Prop :=
  ∃ rest, base.bind heap.live = some (bytes ++ rest)

theorem begins_nil {n : Nat} (h : heap.size base = some n) : heap.Begins base [] := by
  obtain ⟨all, hall, _⟩ := Option.map_eq_some_iff.mp h
  exact ⟨all, hall⟩

theorem Begins.read (h : heap.Begins base bytes) : heap.read base bytes.length = bytes := by
  obtain ⟨rest, hrest⟩ := h
  rw [Heap.read, hrest]
  exact List.take_left

/-- What is written right behind the first bytes continues them. -/
theorem Begins.write {n : Nat} (h : heap.Begins (some b) bytes)
    (hsize : heap.size (some b) = some n) (hfits : bytes.length + src.length ≤ n) :
    (heap.write (some b) bytes.length src).Begins (some b) (bytes ++ src) := by
  obtain ⟨rest, hrest⟩ := h
  rw [size, hrest, Option.map_some, List.length_append] at hsize
  have hlength := Option.some.inj hsize
  have hsrc : src.take ((bytes ++ rest).length - bytes.length) = src := by
    apply List.take_of_length_le
    rw [List.length_append]
    omega
  refine ⟨(bytes ++ rest).drop (bytes.length + src.length), ?_⟩
  rw [Option.bind_some] at hrest ⊢
  simp only [Heap.write, Function.update_self, hrest, Option.map_some, overwrite, List.take_left,
    hsrc, List.append_assoc]

theorem begins_write {n : Nat} (hsize : heap.size (some b) = some n) (hfits : src.length ≤ n) :
    (heap.write (some b) 0 src).Begins (some b) src :=
  (begins_nil hsize).write hsize (by rwa [List.length_nil, Nat.zero_add])

end Heap

/-! ### What was received, and its reply -/

/-- A receive that the kernel has completed, with the length it was offered. -/
structure Arrival (A : Type) where
  done : RecvDone A
  offered : Nat

def Arrival.bytes (a : Arrival A) : Bytes := a.done.payload a.offered

def Arrival.res (a : Arrival A) : Int := a.done.res a.offered

theorem Arrival.of_res {a : Arrival A} (h : 0 ≤ a.res) :
    (∃ src payload, a.done = .datagram src payload) ∧ a.res = a.bytes.length := by
  obtain ⟨done, offered⟩ := a
  cases done with
  | datagram src payload => exact ⟨⟨src, payload, rfl⟩, rfl⟩
  | failed err =>
      have hpos := err.pos
      simp only [Arrival.res, RecvDone.res] at h
      omega

theorem sizeT_of_nat {n : Nat} (h : n < 2 ^ 64) : sizeT n = n := by
  rw [sizeT]
  omega

namespace Request

variable {heap heap' : Heap} {r : Request A} {a : Arrival A}

/-- The header is for one buffer and an IPv6 address, and the length is within an allocation of 500
bytes. -/
structure Sized (r : Request A) : Prop where
  base : ∃ b, r.iov.base = some b
  len : r.iov.len ≤ 500
  iovlen : r.iovlen = 1
  namelen : r.namelen = 28

theorem sized_newRequest (heap : Heap) : (newRequest heap : Request A × Heap).1.Sized :=
  ⟨⟨_, rfl⟩, le_rfl, rfl, rfl⟩

/-- What was received is in the request. -/
structure Holds (heap : Heap) (r : Request A) (a : Arrival A) : Prop where
  bytes : heap.Begins r.iov.base a.bytes
  addr : ∀ src payload, a.done = .datagram src payload → r.addr = some src

/-- The message goes to the sender of what was received and consists of its bytes, twice. -/
structure Answers (heap : Heap) (reply : Request A) (a : Arrival A) : Prop where
  iovlen : reply.iovlen = 1
  addr : ∃ src payload, a.done = .datagram src payload ∧ reply.addr = some src
  namelen : reply.namelen = 28
  inside : ∃ n, heap.size reply.iov.base = some n ∧ reply.iov.len ≤ n
  message : heap.read reply.iov.base reply.iov.len = a.bytes ++ a.bytes

section Kept

variable (hkept : ∀ b ∈ r.buffers, heap'.live b = heap.live b)

include hkept

theorem bind_live : r.iov.base.bind heap'.live = r.iov.base.bind heap.live := by
  cases hbase : r.iov.base with
  | none => rfl
  | some b => exact hkept b (buffers_of_base hbase ▸ Multiset.mem_singleton_self b)

theorem Holds.kept (h : r.Holds heap a) : r.Holds heap' a where
  bytes := by
    rw [Heap.Begins, bind_live hkept]
    exact h.bytes
  addr := h.addr

theorem Answers.kept (h : r.Answers heap a) : r.Answers heap' a where
  iovlen := h.iovlen
  addr := h.addr
  namelen := h.namelen
  inside := by
    rw [Heap.size, bind_live hkept]
    exact h.inside
  message := by
    rw [Heap.read, bind_live hkept]
    exact h.message

end Kept

end Request

/-! ### The owners keep what they have -/

section Owners

variable {heap : Heap} {owned : Multiset BufId} {pool : ObjectPoolLite (Request A)}

theorem Backed.size_of_sized {r : Request A} (h : Backed heap (r.buffers + owned))
    (hr : r.Sized) : heap.size r.iov.base = some 500 := by
  obtain ⟨b, hb⟩ := hr.base
  rw [hb]
  refine h.size b (Multiset.mem_add.mpr (Or.inl ?_))
  rw [Request.buffers_of_base hb]
  exact Multiset.mem_singleton_self b

/-- A buffer of others is not the buffer of this request. -/
theorem Backed.base_ne {r : Request A} {b : BufId} (h : Backed heap (r.buffers + owned))
    (hb : b ∈ owned) : r.iov.base ≠ some b := by
  intro hbase
  rw [Request.buffers_of_base hbase, Multiset.singleton_add] at h
  exact (Multiset.nodup_cons.mp h.nodup).1 hb

theorem Backed.live_destroyRequest {r : Request A} {b : BufId}
    (h : Backed heap (r.buffers + owned)) (hb : b ∈ owned) :
    (r.destroy heap).live b = heap.live b := by
  unfold Request.destroy
  split
  · rfl
  · exact Heap.live_free (h.base_ne hb)

theorem Backed.live_destroy {x : ReqOrHandler A} {b : BufId} (h : Backed heap (x.buffers + owned))
    (hb : b ∈ owned) : (x.destroy heap).live b = heap.live b := by
  cases x with
  | monostate => rfl
  | request r => exact h.live_destroyRequest hb
  | handler handler =>
      rw [ReqOrHandler.buffers, Handler.buffers, add_assoc] at h
      exact h.live_destroyRequest (Multiset.mem_add.mpr (Or.inr hb))

/-- A request from the pool or a new one. -/
theorem Backed.getSized {got : Request A × ObjectPoolLite (Request A) × Heap}
    (h : Backed heap (poolBuffers pool + owned)) (hsized : ∀ r ∈ pool.objects, r.Sized)
    (hgot : pool.get newRequest heap = got) :
    Backed got.2.2 (got.1.buffers + (poolBuffers got.2.1 + owned))
      ∧ got.1.Sized ∧ (∀ r ∈ got.2.1.objects, r.Sized)
      ∧ ∀ b ∈ owned, got.2.2.live b = heap.live b := by
  rcases pool.get_cases newRequest heap with ⟨rest, object, hobjects, hget⟩ | ⟨_, hget⟩
  · obtain rfl := hgot.symm.trans hget
    have hput : pool = ObjectPoolLite.put ⟨rest⟩ object := by
      rw [ObjectPoolLite.put, ← hobjects]
    rw [hput, ObjectPoolLite.objects_put] at hsized
    rw [hput, poolBuffers_put, add_assoc] at h
    refine ⟨h, hsized object (List.mem_append_right _ (List.mem_singleton_self _)), fun r hr => ?_,
      fun b _ => rfl⟩
    exact hsized r (List.mem_append_left _ hr)
  · obtain rfl := hgot.symm.trans hget
    refine ⟨h.malloc, Request.sized_newRequest heap, hsized, fun b hb => ?_⟩
    exact Heap.live_malloc (h.size b (Multiset.mem_add.mpr (Or.inr hb))) 500

/-- The handler up to its `sendmsg`. -/
theorem Backed.handleSized {h : Handler A} {a : Arrival A}
    {handled : Request A × ObjectPoolLite (Request A) × Heap × List Access}
    (hbacked : Backed heap (poolBuffers pool + owned)) (hsized : ∀ r ∈ pool.objects, r.Sized)
    (hrequest : h.request.Sized) (howned : ∀ b ∈ h.request.buffers, b ∈ owned)
    (hholds : h.request.Holds heap a) (hres : h.lastCqe.res = a.res) (hnonneg : 0 ≤ a.res)
    (hfits : a.res ≤ 250) (hhandled : h.handle pool heap = handled) :
    Backed handled.2.2.1 (handled.1.buffers + (poolBuffers handled.2.1 + owned))
      ∧ handled.1.Sized ∧ (∀ r ∈ handled.2.1.objects, r.Sized)
      ∧ (∀ b ∈ owned, handled.2.2.1.live b = heap.live b)
      ∧ handled.1.Answers handled.2.2.1 a := by
  subst hhandled
  obtain ⟨hgot, hreply, hrest, hkept⟩ := hbacked.getSized hsized rfl
  obtain ⟨⟨src, payload, hdone⟩, hlength⟩ := Arrival.of_res hnonneg
  have hsmall : a.bytes.length ≤ 250 := by omega
  have hsize : sizeT h.lastCqe.res = a.bytes.length := by
    rw [hres, hlength]
    exact sizeT_of_nat (by omega)
  have hsent : a.bytes.length * 2 % 2 ^ 64 = a.bytes.length * 2 := Nat.mod_eq_of_lt (by omega)
  unfold Handler.handle
  generalize pool.get newRequest heap = got at hgot hreply hrest hkept ⊢
  obtain ⟨b, hb⟩ := hrequest.base
  obtain ⟨c, hc⟩ := hreply.base
  have hbOwned : b ∈ owned := howned b (by
    rw [Request.buffers_of_base hb]
    exact Multiset.mem_singleton_self b)
  have hapart : ∀ d ∈ owned, got.1.iov.base ≠ some d := fun d hd =>
    hgot.base_ne (Multiset.mem_add.mpr (Or.inr hd))
  have hreplySize : got.2.2.size (some c) = some 500 := hc ▸ hgot.size_of_sized hreply
  -- the request keeps its bytes while the reply is written
  have hread : ∀ heap' : Heap, (∀ d ∈ owned, heap'.live d = got.2.2.live d) →
      heap'.read h.request.iov.base a.bytes.length = a.bytes := by
    intro heap' hsame
    refine ((hholds.kept fun d hd => ?_).bytes).read
    rw [hsame d (howned d hd), hkept d (howned d hd)]
  have hfirst : ∀ d ∈ owned, (got.2.2.write got.1.iov.base 0 a.bytes).live d = got.2.2.live d :=
    fun d hd => Heap.live_write (hapart d hd) 0
  simp only [hsize, hsent, hread got.2.2 fun d _ => rfl, hread _ hfirst]
  refine ⟨(hgot.write _ _ _).write _ _ _, ⟨⟨c, hc⟩, by dsimp only; omega, hreply.iovlen,
    hreply.namelen⟩, hrest, fun d hd => ?_, ?_⟩
  · rw [Heap.live_write (hapart d hd), hfirst d hd, hkept d hd]
  · have hbegins : (got.2.2.write (some c) 0 a.bytes).Begins (some c) a.bytes :=
      Heap.begins_write hreplySize (by omega)
    have hlonger : a.bytes.length + a.bytes.length ≤ 500 := by omega
    have htwice := hbegins.write ((Heap.size_write _ _ _ _ _).trans hreplySize) hlonger
    refine
      { iovlen := hreply.iovlen
        addr := ⟨src, payload, hdone, hholds.addr src payload hdone⟩
        namelen := hreply.namelen
        inside := ⟨500, ?_, by dsimp only; omega⟩
        message := ?_ }
    · simp only [Heap.size_write, hc, hreplySize]
    · have hmessage := htwice.read
      rw [List.length_append, ← Nat.mul_two] at hmessage
      simpa only [hc] using hmessage

end Owners

end Hnet.Netring
