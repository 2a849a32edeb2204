import Hnet.Lts
import Hnet.TcpServer
import Mathlib.Algebra.Order.Group.Multiset

/-!
# The descriptors of the TCP server

No code closes what `accept` returned, so a connection keeps its descriptor when its fiber ends. The
descriptors are right exactly as long as no fiber of a connection does.
-/

namespace Hnet

open Lts

variable {A : Type}

namespace TcpServer

/-- The descriptors of the connections whose fibers have not ended, and of those whose have. -/
def liveFds (s : TcpServer A) : List Int := (s.conns.filter fun c => !c.finished).map Conn.fd

def endedFds (s : TcpServer A) : List Int := (s.conns.filter fun c => c.finished).map Conn.fd

/-- Beside the listening socket, the descriptors that are open are those of the connections whose
fibers have not ended, and those of the others have been closed once each. -/
structure NoLeak (s : TcpServer A) : Prop where
  open_iff : ∀ fd, fd ∈ s.files.fds ↔ (s.accepting = true ∧ fd = s.socket.fd) ∨ fd ∈ s.liveFds
  closedOnce : (s.files.closed : Multiset Int)
    = (if s.accepting then 0 else {s.socket.fd}) + (s.endedFds : Multiset Int)

/-- The step does not end the fiber of a connection: it is no receive without data and no send that
fails. -/
def StaysOpen (_ : TcpServer A) : Event A → Prop
  | .accept _ _ => True
  | .recv _ res => 0 < res
  | .send _ res => 0 ≤ res

instance (s : TcpServer A) (e : Event A) : Decidable (StaysOpen s e) := by
  cases e <;> unfold StaysOpen <;> infer_instance

/-- No connection has ended, and all descriptors are accounted for. -/
structure AllLive (s : TcpServer A) : Prop where
  socket_nonneg : 0 ≤ s.socket.fd
  live : ∀ c ∈ s.conns, c.finished = false
  fds : s.files.fds.Perm ((if s.accepting then [s.socket.fd] else []) ++ s.conns.map Conn.fd)
  closed : s.files.closed = if s.accepting then [] else [s.socket.fd]

variable {s s' : TcpServer A}

theorem AllLive.liveFds_eq (h : AllLive s) : s.liveFds = s.conns.map Conn.fd := by
  rw [liveFds, List.filter_eq_self.mpr fun c hc => by rw [h.live c hc]; rfl]

theorem AllLive.endedFds_eq (h : AllLive s) : s.endedFds = [] := by
  rw [endedFds, List.filter_eq_nil_iff.mpr fun c hc => by rw [h.live c hc]; decide, List.map_nil]

theorem AllLive.noLeak (h : AllLive s) : NoLeak s where
  open_iff fd := by
    rw [h.liveFds_eq, h.fds.mem_iff, List.mem_append]
    cases s.accepting <;> simp
  closedOnce := by
    rw [h.closed, h.endedFds_eq]
    cases s.accepting <;> rfl

/-- `accept` throws, and the listening socket goes with its fiber. -/
theorem AllLive.acceptThrows (h : AllLive s) (haccepting : s.accepting = true) :
    AllLive { s with accepting := false, files := s.socket.destroy s.files } := by
  have hfds := h.fds
  have hclosed := h.closed
  rw [haccepting, if_pos rfl] at hfds hclosed
  refine ⟨h.socket_nonneg, h.live, ?_, ?_⟩
  · simp only [Socket.destroy, if_pos h.socket_nonneg, Files.fds_close]
    have herase := hfds.erase s.socket.fd
    rwa [List.singleton_append, List.erase_cons_head] at herase
  · simp only [Socket.destroy, if_pos h.socket_nonneg, Files.close, hclosed]
    rfl

theorem AllLive.accepted (h : AllLive s) (fd : Int) (addr : Addr A) :
    AllLive
      { s with
        conns := s.conns ++ [{ fd := fd, addr := addr, pc := .receiving }]
        files := (setSocketBlockingEnabled (s.files.add fd) fd false).2 } where
  socket_nonneg := h.socket_nonneg
  live c hc := by
    rcases List.mem_append.mp hc with hc | hc
    · exact h.live c hc
    · rw [List.mem_singleton.mp hc]
      rfl
  fds := by
    rw [fds_setSocketBlockingEnabled, Files.fds_add, List.map_append, ← List.append_assoc]
    exact h.fds.append_right _
  closed := by
    rw [closed_setSocketBlockingEnabled]
    exact h.closed

/-- A connection goes on with its descriptor. -/
theorem AllLive.update {i : Nat} {c c' : Conn A} (h : AllLive s) (hc : s.conns[i]? = some c)
    (hfd : c'.fd = c.fd) (hlive : c'.finished = false) :
    AllLive { s with conns := s.conns.set i c' } where
  socket_nonneg := h.socket_nonneg
  live x hx := by
    rcases List.mem_or_eq_of_mem_set hx with hx | rfl
    · exact h.live x hx
    · exact hlive
  fds := by
    have hsame : (s.conns.set i c').map Conn.fd = s.conns.map Conn.fd := by
      obtain ⟨hlt, rfl⟩ := List.getElem?_eq_some_iff.mp hc
      rw [List.map_set, hfd, ← List.map_set, List.set_getElem_self]
    rw [hsame]
    exact h.fds
  closed := h.closed

/-- A connection ends, and nothing closes its descriptor. -/
theorem AllLive.not_noLeak {i : Nat} {c c' : Conn A} (h : AllLive s) (hc : s.conns[i]? = some c)
    (hended : c'.finished = true) : ¬ NoLeak { s with conns := s.conns.set i c' } := by
  intro hnoLeak
  have hcard : s.files.closed.length
      = Multiset.card (if s.accepting then 0 else {s.socket.fd} : Multiset Int)
        + (endedFds { s with conns := s.conns.set i c' }).length := by
    rw [← Multiset.coe_card (endedFds _), ← Multiset.card_add, ← Multiset.coe_card]
    exact congrArg Multiset.card hnoLeak.closedOnce
  have hmem : c'.fd ∈ endedFds { s with conns := s.conns.set i c' } := by
    refine List.mem_map_of_mem (List.mem_filter.mpr ⟨?_, hended⟩)
    exact List.mem_set (List.getElem?_eq_some_iff.mp hc).1 c'
  have hpos := List.length_pos_of_mem hmem
  rw [h.closed] at hcard
  generalize (endedFds { s with conns := s.conns.set i c' }).length = ended at hcard hpos
  cases haccepting : s.accepting
  · simp only [haccepting, Bool.false_eq_true, if_false, List.length_singleton,
      Multiset.card_singleton] at hcard
    omega
  · simp only [haccepting, if_true, List.length_nil, Multiset.card_zero] at hcard
    omega

theorem step_allLive {e : Event A} (h : AllLive s) (hok : StaysOpen s e)
    (hstep : s.step e = some s') : AllLive s' := by
  cases e with
  | accept res addr =>
      obtain ⟨haccepting, _, rfl⟩ := step_accept hstep
      unfold acceptReturned accept
      by_cases hneg : res < 0
      · rw [if_pos hneg]
        exact h.acceptThrows haccepting
      · rw [if_neg hneg]
        exact h.accepted res addr
  | recv i res =>
      obtain ⟨c, hc, _, rfl⟩ := step_recv hstep
      refine h.update hc (c.fd_recvReturned res) ?_
      rw [Conn.finished_recvReturned, decide_eq_false (not_le.mpr hok)]
  | send i res =>
      obtain ⟨c, ww, hc, _, rfl⟩ := step_send hstep
      refine h.update hc (c.fd_sendReturned res) ?_
      rw [Conn.finished_sendReturned, decide_eq_false (not_lt.mpr hok)]

theorem not_noLeak_of_ends {e : Event A} (h : AllLive s) (hends : ¬ StaysOpen s e)
    (hstep : s.step e = some s') : ¬ NoLeak s' := by
  cases e with
  | accept res addr => exact absurd trivial hends
  | recv i res =>
      obtain ⟨c, hc, _, rfl⟩ := step_recv hstep
      refine h.not_noLeak hc ?_
      rw [Conn.finished_recvReturned, decide_eq_true (not_lt.mp hends)]
  | send i res =>
      obtain ⟨c, ww, hc, _, rfl⟩ := step_send hstep
      refine h.not_noLeak hc ?_
      rw [Conn.finished_sendReturned, decide_eq_true (not_le.mp hends)]

theorem allLive_init {socket : Socket} {res : Int} (h : Socket.create res = some socket) :
    AllLive (init socket : TcpServer A) where
  socket_nonneg := Socket.fd_nonneg h
  live _ hc := by cases hc
  fds := .refl _
  closed := rfl

/-- **The server leaks no descriptor exactly as long as no fiber of a connection ends.** -/
theorem noLeak_throughout_iff {socket : Socket} {res : Int}
    (hsocket : Socket.create res = some socket) (es : List (Event A)) :
    Throughout step NoLeak (init socket) es ↔ Along step StaysOpen (init socket) es :=
  throughout_iff_along es (allLive_init hsocket) (fun s (h : AllLive s) => h.noLeak)
    (fun _ _ _ h hok hstep => step_allLive h hok hstep)
    fun _ _ _ h hends hstep => not_noLeak_of_ends h hends hstep

/-- Two connections that are served, before `accept` throws. -/
def servedRun : List (Event Nat) :=
  [.accept 5 ⟨some 1, 28⟩, .recv 0 20, .accept 6 ⟨some 2, 28⟩, .send 0 40, .recv 1 20,
    .accept (-24) Addr.new, .recv 0 3]

theorem noLeak_servedRun : Throughout step NoLeak (init ⟨4⟩) servedRun :=
  (noLeak_throughout_iff (show Socket.create 4 = some ⟨4⟩ from rfl) servedRun).mpr (by decide)

/-- The peer closes its connection. -/
def closedRun : List (Event Nat) := [.accept 5 ⟨some 1, 28⟩, .recv 0 0]

theorem closedRun_fds :
    (run step (init ⟨4⟩) closedRun).map (fun s => (s.files.fds, s.socket.fd, s.liveFds))
      = some ([4, 5], 4, []) := by
  decide

theorem not_noLeak_closedRun : ¬ Throughout step NoLeak (init ⟨4⟩) closedRun := by
  intro h
  obtain ⟨s, hrun, hfds⟩ := Option.map_eq_some_iff.mp closedRun_fds
  obtain ⟨hopened, hrest⟩ := Prod.mk.inj hfds
  obtain ⟨hsocket, hlive⟩ := Prod.mk.inj hrest
  have hopen := (h.last hrun).open_iff 5
  rw [hopened, hsocket, hlive] at hopen
  exact absurd (hopen.mp (by decide)) (by simp)

end TcpServer

end Hnet
