import Hnet.Lts
import Hnet.TcpServer
import Mathlib.Algebra.Order.Ring.Int

/-!
# Whether each reply goes out whole

The loop does not look at what `sendmsg` returns. The rest of a reply that the kernel has not taken
is never sent, and the connection goes on to its next receive with a torn reply behind it.
-/

namespace Hnet

open Lts

variable {A : Type}

/-- What holds of a connection as long as every reply has gone out whole. -/
def Conn.Whole (c : Conn A) (wire : Wire) : Prop :=
  match c.pc with
  | .receiving => wire.written = copies wire.reads reply.bytes
  | .sending ww => ww.buf = MemView.of REPLY.utf8ByteSize ∧
      ∃ k, wire.reads = k + 1 ∧ wire.written = copies k reply.bytes
  | .ended | .threw => True

section Conn

variable {c : Conn A} {wire : Wire} {res : Int} {ww : WriteView A}

theorem view_reply : reply.view (MemView.of REPLY.utf8ByteSize) = reply.bytes := by
  rw [Buffer.view, Buffer.read, MemView.of, List.drop_zero]
  exact List.take_of_length_le reply.length_eq.le

/-- A receive of something is followed by a reply, one without data by the end. -/
theorem Conn.Whole.recvReturned (h : c.Whole wire) (hpc : c.pc = .receiving) :
    (c.recvReturned res).Whole (wire.received res) := by
  rw [Whole, hpc] at h
  by_cases hpos : 0 < res
  · have hsize : ¬ res.toNat = 0 := by omega
    have hreset : ¬ res = -ECONNRESET := by
      rw [ECONNRESET]
      omega
    simp only [Conn.recvReturned, readView, if_neg hreset, if_pos hpos.le, if_neg hsize, Whole]
    refine ⟨trivial, wire.reads, ?_, ?_⟩
    · rw [Wire.received, if_pos hpos]
    · rw [Wire.received, if_pos hpos, h]
  · have hfinished := finished_recvReturned c res
    rw [decide_eq_true (not_lt.mp hpos)] at hfinished
    unfold finished at hfinished
    unfold Whole
    split at hfinished <;> simp_all

/-- A send that takes the reply whole completes it. -/
theorem Conn.Whole.sendReturned (h : c.Whole wire) (hpc : c.pc = .sending ww)
    (hwhole : res < 0 ∨ res = REPLY.utf8ByteSize) :
    (c.sendReturned res).Whole (wire.sent (reply.view ww.buf) res) := by
  rw [Whole, hpc] at h
  obtain ⟨hbuf, k, hreads, hwritten⟩ := h
  rcases hwhole with hneg | rfl
  · simp only [Conn.sendReturned, sendmsg, if_pos hneg, Whole]
  · have hnonneg : ¬ (REPLY.utf8ByteSize : Int) < 0 := not_lt.mpr (Int.natCast_nonneg _)
    simp only [Conn.sendReturned, sendmsg, if_neg hnonneg, Whole]
    rw [Wire.sent, hbuf, view_reply, Int.toNat_natCast, List.take_of_length_le reply.length_eq.le,
      hwritten, hreads, copies_append]

/-- A send that takes less leaves the connection in its next receive with a torn reply. -/
theorem Conn.Whole.torn (h : c.Whole wire) (hpc : c.pc = .sending ww)
    (htakes : StreamTakes (reply.view ww.buf).length res)
    (hshort : ¬ (res < 0 ∨ res = REPLY.utf8ByteSize)) :
    (c.sendReturned res).pc = .receiving ∧
      (wire.sent (reply.view ww.buf) res).written
        ≠ copies (wire.sent (reply.view ww.buf) res).reads reply.bytes := by
  rw [Whole, hpc] at h
  obtain ⟨hbuf, k, hreads, hwritten⟩ := h
  obtain ⟨hnonneg, hne⟩ := not_or.mp hshort
  rw [hbuf, view_reply] at htakes ⊢
  refine ⟨?_, fun heq => ?_⟩
  · simp only [Conn.sendReturned, sendmsg, if_neg hnonneg]
  · have hlen := congrArg List.length heq
    have hreply := reply.length_eq
    simp only [Wire.sent, hwritten, hreads, List.length_append, List.length_take, length_copies,
      Nat.succ_mul] at hlen
    unfold StreamTakes at htakes
    omega

end Conn

namespace TcpRun

variable {s s' : TcpRun A}

/-- Each connection that is in `recvmsg` has been sent one reply for each read that received
something. -/
def WholeReplies (s : TcpRun A) : Prop :=
  ∀ (i : Nat) (c : Conn A), s.server.conns[i]? = some c → c.pc = .receiving →
    (s.wires i).written = copies (s.wires i).reads reply.bytes

def TakesWhole (_ : TcpRun A) : TcpServer.Event A → Prop
  | .send _ res => res < 0 ∨ res = REPLY.utf8ByteSize
  | .accept _ _ | .recv _ _ => True

instance (s : TcpRun A) : ∀ e, Decidable (TakesWhole s e)
  | .send _ res => inferInstanceAs (Decidable (res < 0 ∨ res = REPLY.utf8ByteSize))
  | .accept _ _ | .recv _ _ => isTrue trivial

def AllWhole (s : TcpRun A) : Prop :=
  ∀ (i : Nat) (c : Conn A), s.server.conns[i]? = some c → c.Whole (s.wires i)

theorem AllWhole.wholeReplies (h : AllWhole s) : WholeReplies s := by
  intro i c hc hpc
  have hwhole := h i c hc
  rwa [Conn.Whole, hpc] at hwhole

theorem AllWhole.set (h : AllWhole s) {i : Nat} {c : Conn A} {wire : Wire} (hnew : c.Whole wire) :
    AllWhole
      { server := { s.server with conns := s.server.conns.set i c }
        wires := Function.update s.wires i wire } := by
  intro j d hd
  change d.Whole (Function.update s.wires i wire j)
  rw [List.getElem?_set] at hd
  by_cases hij : i = j
  · subst hij
    rw [if_pos rfl] at hd
    split at hd
    · obtain rfl := Option.some.inj hd
      rwa [Function.update_self]
    · cases hd
  · rw [if_neg hij] at hd
    rw [Function.update_of_ne (Ne.symm hij)]
    exact h j d hd

theorem AllWhole.accept (h : AllWhole s) (res : Int) (addr : Addr A) :
    AllWhole
      { server := s.server.acceptReturned res addr
        wires := Function.update s.wires s.server.conns.length Wire.fresh } := by
  intro i c hc
  have hold : s.server.conns[i]? = some c → c.Whole
      (Function.update s.wires s.server.conns.length Wire.fresh i) := by
    intro hc
    have hlt := (List.getElem?_eq_some_iff.mp hc).1
    rw [Function.update_of_ne hlt.ne]
    exact h i c hc
  unfold TcpServer.acceptReturned at hc
  split at hc
  · exact hold hc
  · simp only [List.getElem?_append] at hc
    split at hc
    · exact hold hc
    · rename_i hge
      obtain ⟨hlt, hget⟩ := List.getElem?_eq_some_iff.mp hc
      rw [List.getElem_singleton] at hget
      subst hget
      have hi : i = s.server.conns.length := by
        rw [List.length_singleton] at hlt
        omega
      simp only [hi, Function.update_self]
      rfl

theorem allWhole_step {e : TcpServer.Event A} (h : AllWhole s) (hok : TakesWhole s e)
    (hstep : s.step e = some s') : AllWhole s' := by
  cases e with
  | accept res addr =>
      obtain rfl := step_accept hstep
      exact h.accept res addr
  | recv i res =>
      obtain ⟨c, hc, hpc, rfl⟩ := step_recv hstep
      exact h.set ((h i c hc).recvReturned hpc)
  | send i res =>
      obtain ⟨c, ww, hc, hpc, _, rfl⟩ := step_send hstep
      exact h.set ((h i c hc).sendReturned hpc hok)

theorem not_wholeReplies_step {e : TcpServer.Event A} (h : AllWhole s) (hnot : ¬ TakesWhole s e)
    (hstep : s.step e = some s') : ¬ WholeReplies s' := by
  cases e with
  | accept res addr => exact absurd trivial hnot
  | recv i res => exact absurd trivial hnot
  | send i res =>
      obtain ⟨c, ww, hc, hpc, htakes, rfl⟩ := step_send hstep
      obtain ⟨hreceiving, htorn⟩ := (h i c hc).torn hpc htakes hnot
      intro hwhole
      have hlt := (List.getElem?_eq_some_iff.mp hc).1
      have hreply := hwhole i (c.sendReturned res)
        (by simp only [List.getElem?_set_self hlt]) hreceiving
      simp only [Function.update_self] at hreply
      exact htorn hreply

theorem AllWhole.along_iff (h : AllWhole s) (es : List (TcpServer.Event A)) :
    Throughout step WholeReplies s es ↔ Along step TakesWhole s es :=
  throughout_iff_along es h (fun _ => AllWhole.wholeReplies) (fun _ _ _ => allWhole_step)
    (fun _ _ _ => not_wholeReplies_step)

theorem allWhole_init (socket : Socket) : AllWhole (init socket : TcpRun A) := by
  intro i c hc
  rw [init, TcpServer.init, List.getElem?_nil] at hc
  cases hc

/-- **Every reply goes out whole exactly when no send succeeds with less than the whole reply.** -/
theorem wholeReplies_iff (socket : Socket) (es : List (TcpServer.Event A)) :
    Throughout step WholeReplies (init socket) es ↔ Along step TakesWhole (init socket) es :=
  (allWhole_init socket).along_iff es

/-- A connection that receives five bytes, and whose reply the kernel takes one byte of. -/
theorem not_wholeReplies_oneByte :
    ¬ Throughout step WholeReplies (init { fd := 3 })
      [.accept 4 (Addr.new : Addr Nat), .recv 0 5, .send 0 1] := by
  rw [(allWhole_init _).along_iff]
  decide

end TcpRun

end Hnet
