import Hnet.Netring.Executor

/-!
# The cookies of `dispatch_loop`

Each variant is in one place at a time: it is the one that receives, it holds the handler that the
loop is about to enter, it is with a handler suspended in its send, or it is in the pool. The
completion queue, the kernel and the submission queue together hold one cookie for the first and
one for each of the third, so a completion finds the handler that has asked for it.
-/

namespace Hnet.Netring

open Lts

variable {A : Type}

/-! ### What each wait of the loop finds -/

structure Handler.SuspendedAs (h : Handler A) (variant : VarId) : Prop where
  cookie : h.cookie = variant
  yielded : ∃ reply, h.pc = .yielded reply

namespace Executor

variable {s s' : Executor A}

structure CookiesOwned (s : Executor A) : Prop where
  /-- one receive is outstanding, into a request -/
  receive : ∃ variant request,
    s.uring.outstanding.filter (fun c => c.op = .recv) = {⟨variant, .recv⟩}
    ∧ s.variants variant = .request request
  /-- every other operation is the send of a suspended handler -/
  send : ∀ c ∈ s.uring.outstanding, c.op ≠ .recv → ∃ h, s.variants c.variant = .handler h
    ∧ c.op = .send h.number ∧ h.SuspendedAs c.variant
  /-- every handler that has not finished has one operation outstanding, its send -/
  unfinished : ∀ variant h, s.variants variant = .handler h → h.pc ≠ .finished →
    s.uring.outstanding.filter (fun c => c.variant = variant) = {⟨variant, .send h.number⟩}
  distinct : (s.uring.outstanding.map Cookie.variant).Nodup
  pool : s.reqOrHandlerPool.objects.Nodup
  pooled : ∀ c ∈ s.uring.outstanding, c.variant ∉ s.reqOrHandlerPool.objects
  /-- the completion of a send ends the handler that submitted it, and changes no other variant -/
  resumes : ∀ cqe n, s.uring.peek = some cqe → cqe.userData.op = .send n →
    ∃ h, s.variants cqe.userData.variant = .handler h ∧ h.number = n
      ∧ (s.pollReturned cqe).variants = Function.update s.variants cqe.userData.variant
          (.handler { h with lastCqe := cqe, stack := none, pc := .finished })

/-- The cookies are owned whenever the loop is in `poll_cookie`, and it neither panics nor switches
into a handler that has exited. -/
structure CookieSafe (s : Executor A) : Prop where
  polling : s.pc = .polling → s.CookiesOwned
  not_panicked : s.pc ≠ .panicked
  not_lost : s.pc ≠ .lost

/-! ### The owners of the variants -/

end Executor

namespace Pc

/-- The variant of the handler that the loop has created and not entered. -/
def starting : Pc → Multiset VarId
  | .arming _ (some variant) => {variant}
  | .entering variant => {variant}
  | _ => 0

@[simp]
theorem starting_polling : starting .polling = 0 := rfl

@[simp]
theorem starting_arming_some (receiver variant : VarId) :
    starting (.arming receiver (some variant)) = {variant} := rfl

@[simp]
theorem starting_entering (variant : VarId) : starting (.entering variant) = {variant} := rfl

def armed : Pc → Bool
  | .arming _ _ => false
  | _ => true

/-- The loop has ended by an exception or by a null SQE. -/
def Stopped (pc : Pc) : Prop := pc = .threw ∨ pc = .nullSqe

end Pc

def sendCookie (p : VarId × Nat) : Cookie := { variant := p.1, op := .send p.2 }

@[simp]
theorem variant_sendCookie (p : VarId × Nat) : (sendCookie p).variant = p.1 := rfl

namespace Executor

variable {s s' : Executor A} {receiver : VarId} {suspended : Multiset (VarId × Nat)}

theorem coe_objects_put {T : Type} (pool : ObjectPoolLite T) (t : T) :
    ((pool.put t).objects : Multiset T) = t ::ₘ (pool.objects : Multiset T) :=
  Multiset.coe_eq_coe.mpr (List.perm_append_singleton t pool.objects)

/-- The variants, by their places: the one that receives, that of the handler not yet entered, those
of the suspended handlers, and those in the pool. -/
def places (pc : Pc) (receiver : VarId) (suspended : Multiset (VarId × Nat))
    (pool : ObjectPoolLite VarId) : Multiset VarId :=
  receiver ::ₘ (pc.starting + (suspended.map Prod.fst + (pool.objects : Multiset VarId)))

structure Owns (s : Executor A) (receiver : VarId) (suspended : Multiset (VarId × Nat)) : Prop where
  pc : s.pc = .polling ∨ (∃ handler, s.pc = .arming receiver handler) ∨ ∃ v, s.pc = .entering v
  request : ∃ request, s.variants receiver = .request request
  yielded : ∀ p ∈ suspended, ∃ h, s.variants p.1 = .handler h ∧ h.number = p.2 ∧ h.SuspendedAs p.1
  ready : ∀ v ∈ s.pc.starting, ∃ h, s.variants v = .handler h ∧ h.cookie = v ∧ h.pc = .ready
  unfinished : ∀ v h, s.variants v = .handler h → h.pc ≠ .finished →
    v ∈ s.pc.starting ∨ (v, h.number) ∈ suspended
  nodup : (places s.pc receiver suspended s.reqOrHandlerPool).Nodup
  made : ∀ v ∈ places s.pc receiver suspended s.reqOrHandlerPool, v < s.nextVariant
  unmade : ∀ v, s.nextVariant ≤ v → s.variants v = .monostate
  outstanding : s.uring.outstanding
    = (if s.pc.armed then {⟨receiver, .recv⟩} else 0) + suspended.map sendCookie

theorem Owns.not_panicked (h : Owns s receiver suspended) : s.pc ≠ .panicked ∧ s.pc ≠ .lost := by
  rcases h.pc with hpc | ⟨_, hpc⟩ | ⟨_, hpc⟩ <;> rw [hpc] <;> exact ⟨nofun, nofun⟩

theorem owns_init (capacity : Nat) (fits : 8 + capacity < 2 ^ 64) :
    Owns (init capacity fits : Executor A) 0 0 where
  pc := Or.inr (Or.inl ⟨none, rfl⟩)
  request := ⟨_, rfl⟩
  yielded p hp := absurd hp (Multiset.notMem_zero p)
  ready v hv := absurd hv (Multiset.notMem_zero v)
  unfinished v h hv := by
    by_cases heq : v = 0
    · subst heq
      cases hv
    · simp only [init, started, newReqOrHandler, Function.update_of_ne heq] at hv
      cases hv
  nodup := Multiset.nodup_singleton 0
  made v hv := by
    obtain rfl := Multiset.mem_singleton.mp hv
    exact Nat.zero_lt_one
  unmade v hv := by
    have hne : v ≠ 0 := Nat.ne_of_gt hv
    simp only [init, started, newReqOrHandler, Function.update_of_ne hne]
  outstanding := rfl

/-! ### What the owners say of the cookies -/

section Cookies

variable (h : Owns s receiver suspended) (hpc : s.pc = .polling)

include h hpc

theorem Owns.outstanding_polling :
    s.uring.outstanding = ⟨receiver, .recv⟩ ::ₘ suspended.map sendCookie := by
  rw [h.outstanding, hpc]
  rfl

theorem Owns.variant_outstanding :
    s.uring.outstanding.map Cookie.variant = receiver ::ₘ suspended.map Prod.fst := by
  rw [h.outstanding_polling hpc, Multiset.map_cons, Multiset.map_map]
  rfl

theorem Owns.nodup_polling :
    (s.uring.outstanding.map Cookie.variant
      + (s.reqOrHandlerPool.objects : Multiset VarId)).Nodup := by
  have hnodup := h.nodup
  rw [places, hpc, Pc.starting_polling, zero_add, ← Multiset.cons_add] at hnodup
  rwa [h.variant_outstanding hpc]

/-- An outstanding operation is the receive or the send of a suspended handler. -/
theorem Owns.mem_outstanding {c : Cookie} (hc : c ∈ s.uring.outstanding) :
    c = ⟨receiver, .recv⟩ ∨ ∃ p ∈ suspended, sendCookie p = c := by
  rw [h.outstanding_polling hpc, Multiset.mem_cons, Multiset.mem_map] at hc
  exact hc

/-- What a completion finds in its variant: the request of the receive or a suspended handler. -/
theorem Owns.polled {cqe : Cqe Cookie} (hpeek : s.uring.peek = some cqe) :
    (cqe.userData = ⟨receiver, .recv⟩
        ∧ ∃ request, s.variants cqe.userData.variant = .request request) ∨
      ∃ p ∈ suspended, cqe.userData = sendCookie p ∧ ∃ handler reply,
        s.variants cqe.userData.variant = .handler handler ∧ handler.number = p.2
          ∧ handler.pc = .yielded reply := by
  rcases h.mem_outstanding hpc (IoUring.userData_mem_of_peek hpeek) with hcookie | ⟨p, hp, hcookie⟩
  · rw [hcookie]
    exact Or.inl ⟨rfl, h.request⟩
  · obtain ⟨handler, hhandler, hnumber, _, reply, hreply⟩ := h.yielded p hp
    rw [← hcookie]
    exact Or.inr ⟨p, hp, rfl, handler, reply, hhandler, hnumber, hreply⟩

theorem Owns.filter_recv :
    s.uring.outstanding.filter (fun c => c.op = .recv) = {⟨receiver, .recv⟩} := by
  have hsends : (suspended.map sendCookie).filter (fun c => c.op = .recv) = 0 := by
    refine Multiset.filter_eq_nil.mpr fun c hc hop => ?_
    obtain ⟨p, _, rfl⟩ := Multiset.mem_map.mp hc
    cases hop
  rw [h.outstanding_polling hpc, Multiset.filter_cons, if_pos rfl, hsends, add_zero]

theorem Owns.filter_variant {p : VarId × Nat} (hp : p ∈ suspended) :
    s.uring.outstanding.filter (fun c => c.variant = p.1) = {sendCookie p} := by
  obtain ⟨rest, rfl⟩ := Multiset.exists_cons_of_mem hp
  have hnodup := (Multiset.nodup_add.mp (h.nodup_polling hpc)).1
  rw [h.variant_outstanding hpc, Multiset.map_cons, Multiset.nodup_cons, Multiset.mem_cons,
    Multiset.nodup_cons, not_or] at hnodup
  obtain ⟨⟨hreceiver, _⟩, hrest, _⟩ := hnodup
  have hothers : (rest.map sendCookie).filter (fun c => c.variant = p.1) = 0 := by
    refine Multiset.filter_eq_nil.mpr fun c hc heq => hrest ?_
    obtain ⟨q, hq, rfl⟩ := Multiset.mem_map.mp hc
    exact heq ▸ Multiset.mem_map_of_mem Prod.fst hq
  rw [h.outstanding_polling hpc, Multiset.filter_cons, if_neg hreceiver, zero_add,
    Multiset.map_cons, Multiset.filter_cons, if_pos (variant_sendCookie p), hothers, add_zero]

theorem Owns.cookiesOwned : s.CookiesOwned where
  receive := ⟨receiver, h.request.choose, h.filter_recv hpc, h.request.choose_spec⟩
  send c hc hop := by
    rcases h.mem_outstanding hpc hc with rfl | ⟨p, hp, rfl⟩
    · exact absurd rfl hop
    · obtain ⟨handler, hhandler, hnumber, hsuspended⟩ := h.yielded p hp
      exact ⟨handler, hhandler, congrArg Op.send hnumber.symm, hsuspended⟩
  unfinished v handler hv hlive := by
    rcases h.unfinished v handler hv hlive with hstarting | hmem
    · rw [hpc] at hstarting
      exact absurd hstarting (Multiset.notMem_zero v)
    · exact h.filter_variant hpc hmem
  distinct := (Multiset.nodup_add.mp (h.nodup_polling hpc)).1
  pool := Multiset.coe_nodup.mp (Multiset.nodup_add.mp (h.nodup_polling hpc)).2.1
  pooled c hc := Multiset.disjoint_left.mp (Multiset.nodup_add.mp (h.nodup_polling hpc)).2.2
    (Multiset.mem_map_of_mem Cookie.variant hc)
  resumes cqe n hpeek hop := by
    rcases h.polled hpc hpeek with ⟨hcookie, _⟩ |
      ⟨p, _, hcookie, handler, reply, hhandler, hnumber, hreply⟩
    · rw [hcookie] at hop
      cases hop
    · rw [hcookie] at hop
      refine ⟨handler, hhandler, hnumber.trans (Op.send.inj hop), ?_⟩
      simp only [pollReturned, resumeHandler, hhandler, hreply]

end Cookies

/-! ### What each step does to the owners -/

section Steps

variable (h : Owns s receiver suspended)

include h

theorem Owns.kernel {k : KernelEvent} {uring : IoUring Cookie}
    (hkernel : s.uring.kernel k = some uring) :
    Owns { s with uring := uring } receiver suspended where
  pc := h.pc
  request := h.request
  yielded := h.yielded
  ready := h.ready
  unfinished := h.unfinished
  nodup := h.nodup
  made := h.made
  unmade := h.unmade
  outstanding := by
    rw [IoUring.outstanding_kernel hkernel]
    exact h.outstanding

/-- A request in a variant gives way to a request. -/
theorem Owns.updateRequest {variant : VarId} {old : Request A} (request : Request A) (heap : Heap)
    (hold : s.variants variant = .request old) :
    Owns
      { s with variants := Function.update s.variants variant (.request request), heap := heap }
      receiver suspended := by
  have hhandler : ∀ {v : VarId} {handler : Handler A},
      Function.update s.variants variant (.request request) v = .handler handler
        ↔ s.variants v = .handler handler := by
    intro v handler
    by_cases heq : v = variant
    · rw [heq, Function.update_self, hold]
      exact ⟨nofun, nofun⟩
    · rw [Function.update_of_ne heq]
  refine
    { pc := h.pc
      request := ?_
      yielded := fun p hp => (h.yielded p hp).imp fun _ hp => ⟨hhandler.mpr hp.1, hp.2⟩
      ready := fun v hv => (h.ready v hv).imp fun _ hv => ⟨hhandler.mpr hv.1, hv.2⟩
      unfinished := fun v handler hv => h.unfinished v handler (hhandler.mp hv)
      nodup := h.nodup
      made := h.made
      unmade := fun v hv => ?_
      outstanding := h.outstanding }
  · by_cases heq : receiver = variant
    · exact ⟨request, by rw [heq]; exact Function.update_self _ _ _⟩
    · exact h.request.imp fun _ hrequest => by rw [← hrequest]; exact Function.update_of_ne heq _ _
  · by_cases heq : v = variant
    · have hunmade := h.unmade v hv
      rw [heq, hold] at hunmade
      cases hunmade
    · exact (Function.update_of_ne heq _ _).trans (h.unmade v hv)

theorem Owns.received {k : KernelEvent} {uring : IoUring Cookie} (variant : VarId)
    (done : RecvDone A) (hkernel : s.uring.kernel k = some uring) :
    Owns (s.received uring variant done) receiver suspended := by
  unfold Executor.received
  cases hvariant : s.variants variant with
  | request r => exact (h.kernel hkernel).updateRequest _ _ hvariant
  | monostate => exact h.kernel hkernel
  | handler _ => exact h.kernel hkernel

theorem Owns.variant_arming {variant : VarId} {handler : Option VarId}
    (hpc : s.pc = .arming variant handler) : variant = receiver := by
  rcases h.pc with hother | ⟨_, hother⟩ | ⟨_, hother⟩ <;> rw [hpc] at hother <;> cases hother
  rfl

theorem Owns.armReceive {variant : VarId} {handler : Option VarId} {pc : Pc}
    {uring : IoUring Cookie} (hpc : s.pc = .arming variant handler)
    (hout : uring.outstanding = ⟨variant, .recv⟩ ::ₘ s.uring.outstanding)
    (hnext : pc = .polling ∨ ∃ v, pc = .entering v) (hstarting : pc.starting = s.pc.starting) :
    Owns { s with uring := uring, pc := pc } receiver suspended := by
  have harmed : pc.armed = true := by
    rcases hnext with rfl | ⟨_, rfl⟩ <;> rfl
  have hplaces : places pc receiver suspended s.reqOrHandlerPool
      = places s.pc receiver suspended s.reqOrHandlerPool := by
    simp only [places, hstarting]
  refine
    { pc := hnext.imp_right Or.inr
      request := h.request
      yielded := h.yielded
      ready := fun v hv => h.ready v (hstarting ▸ hv)
      unfinished := fun v handler hv hlive => ?_
      nodup := hplaces ▸ h.nodup
      made := fun v hv => h.made v (hplaces ▸ hv)
      unmade := h.unmade
      outstanding := ?_ }
  · exact (h.unfinished v handler hv hlive).imp_left fun hv => hstarting.symm ▸ hv
  · rw [if_pos harmed, hout, h.outstanding, hpc, h.variant_arming hpc]
    simp [Pc.armed]

theorem Owns.recvmsg {variant : VarId} {handler : Option VarId}
    (hpc : s.pc = .arming variant handler) :
    (s.recvmsg variant handler).pc.Stopped ∨
      Owns (s.recvmsg variant handler) receiver suspended := by
  unfold Executor.recvmsg
  by_cases hslot : s.uring.HasSlot
  · right
    rw [submit_of_slot hslot]
    have hout : (s.uring.queue (cookieSqe .recvmsg ⟨variant, .recv⟩) hslot).outstanding
        = ⟨variant, .recv⟩ ::ₘ s.uring.outstanding := IoUring.outstanding_queue hslot
    cases handler with
    | none => exact h.armReceive hpc hout (Or.inl rfl) (by rw [hpc]; rfl)
    | some v => exact h.armReceive hpc hout (Or.inr ⟨v, rfl⟩) (by rw [hpc]; rfl)
  · left
    rw [submit_of_full hslot]
    exact Or.inr rfl

/-- The handler about to be entered is with nobody else. -/
theorem Owns.starting_apart {v : VarId} (hv : v ∈ s.pc.starting) :
    receiver ≠ v ∧ ∀ p ∈ suspended, p.1 ≠ v := by
  obtain ⟨hreceiver, hrest⟩ := Multiset.nodup_cons.mp h.nodup
  have hdisjoint := (Multiset.nodup_add.mp hrest).2.2
  constructor
  · intro heq
    apply hreceiver
    rw [heq]
    exact Multiset.mem_add.mpr (Or.inl hv)
  · intro p hp heq
    apply Multiset.disjoint_left.mp hdisjoint hv
    rw [← heq]
    exact Multiset.mem_add.mpr (Or.inl (Multiset.mem_map_of_mem Prod.fst hp))

/-- The handler runs up to its `yield`, and its send is submitted. -/
theorem Owns.suspend {variant : VarId} {handler handler' : Handler A} {reply : Request A}
    {uring : IoUring Cookie} {heap : Heap} {requests : ObjectPoolLite (Request A)}
    {accesses : List Access} (hpc : s.pc = .entering variant)
    (hhandler : s.variants variant = .handler handler)
    (hcookie : handler'.cookie = handler.cookie) (hnumber : handler'.number = handler.number)
    (hyielded : handler'.pc = .yielded reply)
    (hout : uring.outstanding
      = sendCookie (handler.cookie, handler.number) ::ₘ s.uring.outstanding) :
    Owns
      { s with
        uring := uring, heap := heap, requests := requests, accesses := accesses, pc := .polling
        variants := Function.update s.variants variant (.handler handler') }
      receiver ((variant, handler.number) ::ₘ suspended) := by
  have hstarting : variant ∈ s.pc.starting := by rw [hpc]; exact Multiset.mem_singleton_self variant
  obtain ⟨hreceiver, hothers⟩ := h.starting_apart hstarting
  obtain ⟨_, hready, hown, _⟩ := h.ready variant hstarting
  obtain rfl := ReqOrHandler.handler.inj (hhandler.symm.trans hready)
  have hplaces : places .polling receiver ((variant, handler.number) ::ₘ suspended)
      s.reqOrHandlerPool = places s.pc receiver suspended s.reqOrHandlerPool := by
    simp only [places, hpc, Pc.starting_polling, Pc.starting_entering, zero_add,
      Multiset.map_cons, Multiset.cons_add, Multiset.singleton_add]
  refine
    { pc := Or.inl rfl
      request := h.request.imp fun _ hrequest => ?_
      yielded := fun p hp => ?_
      ready := fun v hv => absurd hv (Multiset.notMem_zero v)
      unfinished := fun v other hv hlive => Or.inr ?_
      nodup := hplaces ▸ h.nodup
      made := fun v hv => h.made v (hplaces ▸ hv)
      unmade := fun v hv => ?_
      outstanding := ?_ }
  · rw [← hrequest]
    exact Function.update_of_ne hreceiver _ _
  · rcases Multiset.mem_cons.mp hp with rfl | hp
    · exact ⟨handler', Function.update_self _ _ _, hnumber, hcookie.trans hown, reply, hyielded⟩
    · refine (h.yielded p hp).imp fun _ hold => ⟨?_, hold.2⟩
      exact (Function.update_of_ne (hothers p hp) _ _).trans hold.1
  · by_cases heq : v = variant
    · simp only [heq, Function.update_self, ReqOrHandler.handler.injEq] at hv
      rw [← hv, hnumber, heq]
      exact Multiset.mem_cons_self _ _
    · simp only [Function.update_of_ne heq] at hv
      have hplace := h.unfinished v other hv hlive
      rw [hpc, Pc.starting_entering, Multiset.mem_singleton] at hplace
      exact Multiset.mem_cons_of_mem (hplace.resolve_left heq)
  · have hne : v ≠ variant := by
      rintro rfl
      have hunmade := h.unmade v hv
      rw [hhandler] at hunmade
      cases hunmade
    exact (Function.update_of_ne hne _ _).trans (h.unmade v hv)
  · rw [hout, h.outstanding, hpc, hown, Multiset.map_cons]
    exact (Multiset.add_cons _ _ _).symm

theorem Owns.enter {variant : VarId} {handler : Handler A} (hpc : s.pc = .entering variant)
    (hhandler : s.variants variant = .handler handler) :
    (s.enter variant handler).pc.Stopped ∨
      Owns (s.enter variant handler) receiver ((variant, handler.number) ::ₘ suspended) := by
  by_cases hslot : s.uring.HasSlot
  · right
    rw [enter_of_slot hslot]
    exact h.suspend hpc hhandler rfl rfl rfl (IoUring.outstanding_queue hslot)
  · left
    rw [Executor.enter, submit_of_full hslot]
    exact Or.inr rfl

theorem Owns.resume {p : VarId × Nat} {rest : Multiset (VarId × Nat)} {cqe : Cqe Cookie}
    (hsuspended : suspended = p ::ₘ rest) (hpc : s.pc = .polling)
    (hpeek : s.uring.peek = some cqe) (hcookie : cqe.userData = sendCookie p) :
    Owns (s.pollReturned cqe) receiver rest := by
  subst hsuspended
  obtain ⟨handler, hhandler, _, _, reply, hreply⟩ := h.yielded p (Multiset.mem_cons_self p rest)
  have hplaces : places .polling receiver rest (s.reqOrHandlerPool.put p.1)
      = places s.pc receiver (p ::ₘ rest) s.reqOrHandlerPool := by
    simp only [places, hpc, coe_objects_put, Multiset.map_cons, Multiset.cons_add,
      Multiset.add_cons]
  have hnodup := h.nodup
  rw [← hplaces] at hnodup
  obtain ⟨hreceiver, hrest⟩ := Multiset.nodup_cons.mp hnodup
  have hmem : p.1 ∈ ((s.reqOrHandlerPool.put p.1).objects : Multiset VarId) := by
    rw [coe_objects_put]
    exact Multiset.mem_cons_self _ _
  have hne : receiver ≠ p.1 := by
    rintro rfl
    exact hreceiver (Multiset.mem_add.mpr (Or.inr (Multiset.mem_add.mpr (Or.inr hmem))))
  have hothers : ∀ q ∈ rest, q.1 ≠ p.1 := by
    intro q hq heq
    rw [Pc.starting_polling, zero_add] at hrest
    exact Multiset.disjoint_left.mp (Multiset.nodup_add.mp hrest).2.2
      (heq ▸ Multiset.mem_map_of_mem Prod.fst hq) hmem
  have houtstanding := IoUring.outstanding_of_peek hpeek
  rw [h.outstanding_polling hpc, hcookie, Multiset.map_cons, Multiset.cons_swap] at houtstanding
  simp only [pollReturned, resumeHandler, hcookie, variant_sendCookie, hhandler, hreply]
  refine
    { pc := Or.inl rfl
      request := h.request.imp fun _ hrequest => ?_
      yielded := fun q hq => ?_
      ready := fun v hv => absurd hv (Multiset.notMem_zero v)
      unfinished := fun v other hv hlive => Or.inr ?_
      nodup := hnodup
      made := fun v hv => h.made v (hplaces ▸ hv)
      unmade := fun v hv => ?_
      outstanding := ((Multiset.cons_inj_right _).mp houtstanding).symm }
  · rw [← hrequest]
    exact Function.update_of_ne hne _ _
  · refine (h.yielded q (Multiset.mem_cons_of_mem hq)).imp fun _ hold => ⟨?_, hold.2⟩
    exact (Function.update_of_ne (hothers q hq) _ _).trans hold.1
  · by_cases heq : v = p.1
    · simp only [heq, Function.update_self, ReqOrHandler.handler.injEq] at hv
      exact absurd (hv ▸ rfl) hlive
    · simp only [Function.update_of_ne heq] at hv
      rcases h.unfinished v other hv hlive with hstarting | hmem
      · rw [hpc] at hstarting
        exact absurd hstarting (Multiset.notMem_zero v)
      · refine (Multiset.mem_cons.mp hmem).resolve_left ?_
        rintro rfl
        exact heq rfl
  · have hne : v ≠ p.1 := by
      rintro rfl
      have hunmade := h.unmade p.1 hv
      rw [hhandler] at hunmade
      cases hunmade
    exact (Function.update_of_ne hne _ _).trans (h.unmade v hv)

/-- A variant for a handler, from the pool or a new one. -/
theorem Owns.takeVariant {new : VarId × ObjectPoolLite VarId × VarId} (hpc : s.pc = .polling)
    (hnew : s.reqOrHandlerPool.get newReqOrHandler s.nextVariant = new) :
    (places (.arming receiver (some new.1)) receiver suspended new.2.1).Nodup
      ∧ (∀ v ∈ places (.arming receiver (some new.1)) receiver suspended new.2.1, v < new.2.2)
      ∧ s.nextVariant ≤ new.2.2 := by
  have hnodup := h.nodup
  have hmade := h.made
  rcases s.reqOrHandlerPool.get_cases newReqOrHandler s.nextVariant with
    ⟨rest, object, hobjects, hget⟩ | ⟨_, hget⟩
  · obtain rfl := hnew.symm.trans hget
    have hplaces : places (.arming receiver (some object)) receiver suspended ⟨rest⟩
        = places s.pc receiver suspended s.reqOrHandlerPool := by
      simp only [places, hpc, hobjects, Pc.starting_arming_some, Pc.starting_polling, zero_add,
        ← Multiset.coe_add, Multiset.coe_singleton]
      rw [add_comm ({object} : Multiset VarId), add_assoc]
    rw [hplaces]
    exact ⟨hnodup, hmade, le_rfl⟩
  · obtain rfl := hnew.symm.trans hget
    have hplaces : places (.arming receiver (some s.nextVariant)) receiver suspended
          s.reqOrHandlerPool
        = s.nextVariant ::ₘ places s.pc receiver suspended s.reqOrHandlerPool := by
      simp only [places, hpc, Pc.starting_arming_some, Pc.starting_polling, zero_add,
        Multiset.singleton_add]
      rw [Multiset.cons_swap]
    simp only [newReqOrHandler, hplaces]
    have hfresh : s.nextVariant ∉ places s.pc receiver suspended s.reqOrHandlerPool := by
      intro hmem
      exact (hmade _ hmem).false
    refine ⟨Multiset.nodup_cons.mpr ⟨hfresh, hnodup⟩, ?_, Nat.le_succ _⟩
    intro v hv
    rcases Multiset.mem_cons.mp hv with rfl | hv
    · exact Nat.lt_succ_self _
    · exact (hmade v hv).trans (Nat.lt_succ_self _)

theorem Owns.taken_ne_receiver {new : VarId × ObjectPoolLite VarId × VarId} (hpc : s.pc = .polling)
    (hnew : s.reqOrHandlerPool.get newReqOrHandler s.nextVariant = new) :
    new.1 ≠ receiver ∧ new.1 < new.2.2 ∧ receiver < new.2.2 := by
  obtain ⟨hnodup, hmade, _⟩ := h.takeVariant hpc hnew
  rw [places, Pc.starting_arming_some, Multiset.singleton_add] at hnodup hmade
  refine ⟨?_, ?_, hmade _ (Multiset.mem_cons_self _ _)⟩
  · intro heq
    apply (Multiset.nodup_cons.mp hnodup).1
    rw [heq]
    exact Multiset.mem_cons_self _ _
  · apply hmade
    exact Multiset.mem_cons_of_mem (Multiset.mem_cons_self _ _)

theorem Owns.startHandler {cqe : Cqe Cookie} {req : Request A} (hpc : s.pc = .polling)
    (hpeek : s.uring.peek = some cqe) (hcookie : cqe.userData = ⟨receiver, .recv⟩)
    (hreq : s.variants receiver = .request req) :
    Owns (s.pollReturned cqe) receiver suspended := by
  obtain ⟨hnodup, hmade, hle⟩ := h.takeVariant hpc rfl
  obtain ⟨hne, hnewLt, hreceiverLt⟩ := h.taken_ne_receiver hpc rfl
  have houtstanding := IoUring.outstanding_of_peek hpeek
  rw [h.outstanding_polling hpc, hcookie] at houtstanding
  simp only [pollReturned, Executor.startHandler, hcookie, hreq]
  generalize hnew : s.reqOrHandlerPool.get newReqOrHandler s.nextVariant = new
    at hnodup hmade hle hne hnewLt hreceiverLt ⊢
  obtain ⟨hreceiver, hrest⟩ := Multiset.nodup_cons.mp hnodup
  rw [Pc.starting_arming_some, Multiset.singleton_add] at hreceiver hrest
  have hothers : ∀ p ∈ suspended, p.1 ≠ new.1 := by
    intro p hp heq
    apply (Multiset.nodup_cons.mp hrest).1
    rw [← heq]
    exact Multiset.mem_add.mpr (Or.inl (Multiset.mem_map_of_mem Prod.fst hp))
  have hnotReceiver : ∀ p ∈ suspended, p.1 ≠ receiver := by
    intro p hp heq
    apply hreceiver
    apply Multiset.mem_cons_of_mem
    rw [← heq]
    exact Multiset.mem_add.mpr (Or.inl (Multiset.mem_map_of_mem Prod.fst hp))
  refine
    { pc := Or.inr (Or.inl ⟨some new.1, rfl⟩)
      request := ⟨_, Function.update_self _ _ _⟩
      yielded := fun p hp => ?_
      ready := fun v hv => ?_
      unfinished := fun v other hv hlive => ?_
      nodup := hnodup
      made := hmade
      unmade := fun v hv => ?_
      outstanding := ?_ }
  · refine (h.yielded p hp).imp fun _ hold => ⟨?_, hold.2⟩
    simp only [Function.update_of_ne (hnotReceiver p hp), Function.update_of_ne (hothers p hp)]
    exact hold.1
  · obtain rfl := Multiset.mem_singleton.mp hv
    simp only [Function.update_of_ne hne, Function.update_self]
    exact ⟨_, rfl, rfl, rfl⟩
  · by_cases hv₀ : v = receiver
    · simp only [hv₀, Function.update_self] at hv
      cases hv
    by_cases hv₁ : v = new.1
    · exact Or.inl (Multiset.mem_singleton.mpr hv₁)
    · simp only [Function.update_of_ne hv₀, Function.update_of_ne hv₁] at hv
      refine Or.inr ((h.unfinished v other hv hlive).resolve_left fun hstarting => ?_)
      rw [hpc] at hstarting
      exact Multiset.notMem_zero v hstarting
  · have hv₀ : v ≠ receiver := (hreceiverLt.trans_le hv).ne'
    have hv₁ : v ≠ new.1 := (hnewLt.trans_le hv).ne'
    simp only [Function.update_of_ne hv₀, Function.update_of_ne hv₁]
    exact h.unmade v (hle.trans hv)
  · rw [← (Multiset.cons_inj_right _).mp houtstanding]
    exact (zero_add _).symm

theorem Owns.pollReturned {cqe : Cqe Cookie} (hpc : s.pc = .polling)
    (hpeek : s.uring.peek = some cqe) :
    ∃ suspended', Owns (s.pollReturned cqe) receiver suspended' := by
  rcases h.polled hpc hpeek with ⟨hcookie, req, hreq⟩ | ⟨p, hp, hcookie, _⟩
  · rw [hcookie] at hreq
    exact ⟨suspended, h.startHandler hpc hpeek hcookie hreq⟩
  · obtain ⟨rest, hrest⟩ := Multiset.exists_cons_of_mem hp
    exact ⟨rest, h.resume hrest hpc hpeek hcookie⟩

end Steps

/-! ### Runs -/

/-- The loop has stopped, or every variant has its owner. -/
def Owned (s : Executor A) (receiver : VarId) : Prop :=
  s.pc.Stopped ∨ ∃ suspended, Owns s receiver suspended

@[simp]
theorem pc_received (uring : IoUring Cookie) (variant : VarId) (done : RecvDone A) :
    (s.received uring variant done).pc = s.pc := by
  unfold received
  split <;> rfl

@[simp]
theorem uring_received (uring : IoUring Cookie) (variant : VarId) (done : RecvDone A) :
    (s.received uring variant done).uring = uring := by
  unfold received
  split <;> rfl

theorem step_stopped {e : Event A} (h : s.pc.Stopped) (hstep : s.step e = some s') :
    s'.pc.Stopped := by
  have hnot : s.pc ≠ .polling ∧ (∀ v handler, s.pc ≠ .arming v handler)
      ∧ ∀ v, s.pc ≠ .entering v := by
    rcases h with hpc | hpc <;> rw [hpc] <;> exact ⟨nofun, nofun, nofun⟩
  rcases step_cases hstep with ⟨_, _, _, rfl⟩ | ⟨_, _, _, _, _, rfl⟩ | ⟨_, hpc, _⟩ | ⟨hpc, _⟩ |
    ⟨_, _, hpc, _⟩ | ⟨_, _, _, hpc, _⟩
  · exact h
  · rwa [pc_received]
  · exact absurd hpc hnot.1
  · exact absurd hpc hnot.1
  · exact absurd hpc (hnot.2.1 _ _)
  · exact absurd hpc (hnot.2.2 _)

theorem step_owned {e : Event A} (h : Owned s receiver) (hstep : s.step e = some s') :
    Owned s' receiver := by
  rcases h with hstopped | ⟨suspended, h⟩
  · exact Or.inl (step_stopped hstopped hstep)
  rcases step_cases hstep with ⟨_, _, hkernel, rfl⟩ | ⟨_, _, variant, done, hkernel, rfl⟩ |
    ⟨_, hpc, cqe, hpeek, rfl⟩ | ⟨_, rfl⟩ | ⟨variant, handler, hpc, rfl⟩ |
    ⟨_, variant, handler, hpc, hhandler, rfl⟩
  · exact Or.inr ⟨suspended, h.kernel hkernel⟩
  · exact Or.inr ⟨suspended, h.received variant done hkernel⟩
  · exact Or.inr (h.pollReturned hpc hpeek)
  · exact Or.inl (Or.inl rfl)
  · exact (h.recvmsg hpc).imp_right fun howns => ⟨suspended, howns⟩
  · exact (h.enter hpc hhandler).imp_right fun howns => ⟨_, howns⟩

theorem Owned.cookieSafe (h : Owned s receiver) : CookieSafe s := by
  rcases h with (hpc | hpc) | ⟨suspended, h⟩
  · exact ⟨by rw [hpc]; exact nofun, by rw [hpc]; exact nofun, by rw [hpc]; exact nofun⟩
  · exact ⟨by rw [hpc]; exact nofun, by rw [hpc]; exact nofun, by rw [hpc]; exact nofun⟩
  · exact ⟨h.cookiesOwned, h.not_panicked.1, h.not_panicked.2⟩

theorem owned_init (capacity : Nat) (fits : 8 + capacity < 2 ^ 64) :
    Owned (init capacity fits : Executor A) 0 := Or.inr ⟨0, owns_init capacity fits⟩

/-- **The cookies of `dispatch_loop`.** Whatever the kernel completes and in whatever order, each
wait of the loop finds one receive into a request and one send for each suspended handler
outstanding, and no completion leads to a panic or to a handler that has exited. -/
theorem cookieSafe_throughout (capacity : Nat) (fits : 8 + capacity < 2 ^ 64)
    (es : List (Event A)) : Throughout step CookieSafe (init capacity fits) es := by
  have howned : Throughout step (fun s => Owned s 0) (init capacity fits : Executor A) es :=
    throughout_of_invariant es (owned_init capacity fits)
      fun _ _ _ howned hstep => step_owned howned hstep
  exact howned.imp fun _ h => h.cookieSafe

/-- Two requests, the second of which arrives before the reply to the first has been sent. -/
def twoRequests : List (Event Nat) :=
  [.recvmsg, .consume, .recvDone 0 (.datagram 7 [1, 2]), .poll, .recvmsg, .enter,
    .consume, .consume, .recvDone 0 (.datagram 8 [3]), .poll, .recvmsg, .enter,
    .sendDone 0 4, .poll]

theorem cookieSafe_twoRequests :
    (run step (init 8 (by decide)) twoRequests).map
        (fun s => (s.pc, s.handlers, s.reqOrHandlerPool.objects)) = some (.polling, 2, [1]) ∧
      Throughout step CookieSafe (init 8 (by decide)) twoRequests :=
  ⟨by decide, cookieSafe_throughout 8 (by decide) twoRequests⟩

end Executor

end Hnet.Netring
