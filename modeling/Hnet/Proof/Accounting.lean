import Hnet.ClientProgram
import Hnet.Gaps
import Hnet.Holdings
import Hnet.Lts
import Hnet.Proof.Statistics
import Mathlib.Algebra.BigOperators.Fin

/-!
# The books of the UDP client

Every iteration of a fiber ends in a timing or in a dead packet, and every clock reading but the
first ends one. So the shared vector and the shared counter add up to the iterations of all fibers,
and the gaps between the readings of one fiber to the time it has spent.
-/

namespace Hnet

open Gaps Lts

namespace ClientProgram

variable {A : Type} {n : Nat} {cfg : ClientConfig}

/-- What the timings and the dead packets are, and how the readings of each fiber add up. -/
structure Accounted (cfg : ClientConfig) (s : ClientProgram n) : Prop where
  joined : s.Joined → (s.stats.timings.length : Int) + s.stats.deadPackets
    = cfg.fibers * cfg.iterations
  replies : s.stats.timings.length = ∑ thr, (s.ledgers thr).endings.count .reply
  dead : s.stats.deadPackets = ∑ thr, (s.ledgers thr).endings.count .dead
  shared : (s.stats.timings : Multiset Int) = ∑ thr, ((s.ledgers thr).pushed : Multiset Int)
  pushed : ∀ thr, (s.ledgers thr).pushed
    = ofKind .reply (gaps (s.ledgers thr).readings) (s.ledgers thr).endings
  telescopes : ∀ thr first, (s.ledgers thr).readings.head? = some first →
    (s.ledgers thr).pushed.sum
        + (ofKind .dead (gaps (s.ledgers thr).readings) (s.ledgers thr).endings).sum
      = (s.clients thr).start - first

/-! ### One fiber -/

/-- The ledger of a fiber has its readings, the last of which is `start`, and an ending for each
further one. -/
structure Booked (cfg : ClientConfig) (c : Client) (ledger : Ledger) : Prop where
  kinds : ∀ verdict ∈ ledger.endings, verdict = .reply ∨ verdict = .dead
  count : ledger.endings.length = c.i
  readings : ledger = Ledger.empty ∨ ∃ first rest, ledger.readings = first :: rest
    ∧ rest.length = ledger.endings.length
    ∧ (first :: rest).getLast (List.cons_ne_nil first rest) = c.start
  pushed : ledger.pushed = ofKind .reply (gaps ledger.readings) ledger.endings
  fresh : c.pc = .spawned → ledger = Ledger.empty
  begun : ledger = Ledger.empty → c.pc = .spawned ∨ c.pc = .threw
  before : c.pc = .sending ∨ c.pc = .receiving → (c.i : Int) < cfg.iterations
  after : c.pc = .leaving ∨ c.pc = .joined → cfg.iterations ≤ c.i
  le : 0 ≤ cfg.iterations → (c.i : Int) ≤ cfg.iterations

namespace Booked

variable {c : Client} {ledger : Ledger}

theorem spawn (cfg : ClientConfig) (buf : Buffer 65000) :
    Booked cfg (Client.spawn buf) Ledger.empty where
  kinds verdict hmem := by cases hmem
  count := rfl
  readings := Or.inl rfl
  pushed := rfl
  fresh _ := rfl
  begun _ := Or.inl rfl
  before := by rintro (hpc | hpc) <;> cases hpc
  after := by rintro (hpc | hpc) <;> cases hpc
  le hpos := hpos

/-- A ledger stays right while the fiber moves on within an iteration. -/
theorem move (h : Booked cfg c ledger) {c' : Client} (hi : c'.i = c.i)
    (hstart : c'.start = c.start) (hnot : c'.pc ≠ .spawned)
    (hbegun : c.pc ≠ .spawned ∨ c'.pc = .threw)
    (hbefore : c'.pc = .sending ∨ c'.pc = .receiving → c.pc = .sending ∨ c.pc = .receiving)
    (hafter : c'.pc = .leaving ∨ c'.pc = .joined → c.pc = .leaving ∨ c.pc = .joined)
    (hthrew : c.pc ≠ .threw) : Booked cfg c' ledger where
  kinds := h.kinds
  count := h.count.trans hi.symm
  readings := by
    rw [hstart]
    exact h.readings
  pushed := h.pushed
  fresh hspawned := absurd hspawned hnot
  begun hempty := by
    rcases h.begun hempty with hspawned | hpc
    · exact Or.inr (hbegun.resolve_left fun hne => hne hspawned)
    · exact absurd hpc hthrew
  before hpc := by
    rw [hi]
    exact h.before (hbefore hpc)
  after hpc := by
    rw [hi]
    exact h.after (hafter hpc)
  le := by
    rw [hi]
    exact h.le

theorem setBuf (h : Booked cfg c ledger) (buf : Buffer 65000) :
    Booked cfg { c with buf := buf } ledger :=
  ⟨h.kinds, h.count, h.readings, h.pushed, h.fresh, h.begun, h.before, h.after, h.le⟩

theorem stop (h : Booked cfg c ledger) (hthrew : c.pc ≠ .threw) {pc : ClientPc}
    (hpc : pc = .threw ∨ pc = .panicked ∧ c.pc ≠ .spawned) :
    Booked cfg { c with pc := pc } ledger := by
  have hstopped : pc = .threw ∨ pc = .panicked := hpc.imp_right And.left
  have hspawned : c.pc ≠ .spawned ∨ pc = .threw := hpc.symm.imp_left And.right
  refine h.move rfl rfl ?_ hspawned ?_ ?_ hthrew
  · rcases hstopped with rfl | rfl <;> exact nofun
  · rcases hstopped with rfl | rfl <;> rintro (hother | hother) <;> cases hother
  · rcases hstopped with rfl | rfl <;> rintro (hother | hother) <;> cases hother

theorem send (h : Booked cfg c ledger) (hpc : c.pc = .sending) (res : Int) :
    Booked cfg (c.sendReturned res) ledger := by
  have hstart : (c.sendReturned res).start = c.start := by
    unfold Client.sendReturned
    split
    · rfl
    · split <;> rfl
  have hafter := Client.sendReturned_pc c res
  refine h.move (Client.sendReturned_i c res) hstart ?_ (Or.inl ?_) (fun _ => Or.inl hpc) ?_ ?_
  · rcases hafter with heq | heq <;> rw [heq] <;> exact nofun
  · rw [hpc]
    exact nofun
  · rcases hafter with heq | heq <;> rw [heq] <;> rintro (hother | hother) <;> cases hother
  · rw [hpc]
    exact nofun

theorem join (h : Booked cfg c ledger) (hpc : c.pc = .leaving) :
    Booked cfg { c with pc := .joined } ledger := by
  refine h.move rfl rfl nofun (Or.inl ?_) ?_ (fun _ => Or.inl hpc) ?_
  · rw [hpc]
    exact nofun
  · rintro (hother | hother) <;> cases hother
  · rw [hpc]
    exact nofun

theorem loopHead_cases (cfg : ClientConfig) (c : Client) :
    ((c.loopHead cfg).pc = .sending ∧ (c.i : Int) < cfg.iterations) ∨
      ((c.loopHead cfg).pc = .leaving ∧ cfg.iterations ≤ c.i) := by
  unfold Client.loopHead
  by_cases hlt : (c.i : Int) < cfg.iterations
  · exact Or.inl ⟨if_pos hlt, hlt⟩
  · exact Or.inr ⟨if_neg hlt, not_lt.mp hlt⟩

/-- A ledger that fits the fiber at the head of its loop. -/
theorem loopHead (hkinds : ∀ verdict ∈ ledger.endings, verdict = .reply ∨ verdict = .dead)
    (hcount : ledger.endings.length = c.i)
    (hreadings : ∃ first rest, ledger.readings = first :: rest
      ∧ rest.length = ledger.endings.length
      ∧ (first :: rest).getLast (List.cons_ne_nil first rest) = c.start)
    (hpushed : ledger.pushed = ofKind .reply (gaps ledger.readings) ledger.endings)
    (hle : 0 ≤ cfg.iterations → (c.i : Int) ≤ cfg.iterations) :
    Booked cfg (c.loopHead cfg) ledger where
  kinds := hkinds
  count := hcount
  readings := Or.inr hreadings
  pushed := hpushed
  fresh hspawned := by
    rcases loopHead_cases cfg c with ⟨hpc, _⟩ | ⟨hpc, _⟩ <;> rw [hspawned] at hpc <;> cases hpc
  begun hempty := by
    obtain ⟨first, rest, hfirst, _⟩ := hreadings
    rw [hempty] at hfirst
    cases hfirst
  before hpc := by
    rcases loopHead_cases cfg c with ⟨_, hlt⟩ | ⟨hleaving, _⟩
    · exact hlt
    · rw [hleaving] at hpc
      rcases hpc with hpc | hpc <;> cases hpc
  after hpc := by
    rcases loopHead_cases cfg c with ⟨hsending, _⟩ | ⟨_, hge⟩
    · rw [hsending] at hpc
      rcases hpc with hpc | hpc <;> cases hpc
    · exact hge
  le := hle

theorem started (cfg : ClientConfig) (c : Client) (now : Int) :
    Booked cfg (c.started cfg now) { Ledger.empty with readings := [now] } := by
  apply loopHead
  · intro verdict hmem
    cases hmem
  · rfl
  · exact ⟨now, [], rfl, rfl, rfl⟩
  · rfl
  · intro hpos
    exact hpos

theorem length_gaps (h : Booked cfg c ledger) :
    (gaps ledger.readings).length = ledger.endings.length := by
  rcases h.readings with rfl | ⟨first, rest, hreadings, hlen, _⟩
  · rfl
  · rw [hreadings, Gaps.length_gaps, hlen]

theorem record (h : Booked cfg c ledger) (hpc : c.pc = .receiving) {verdict : Verdict}
    (hverdict : verdict = .dead ∨ verdict = .reply) (now : Int) :
    Booked cfg ({ c with i := c.i + 1, start := now }.loopHead cfg)
      (ledger.record c.start now verdict) := by
  have hlt := h.before (Or.inr hpc)
  have hne : ledger ≠ Ledger.empty := by
    intro hempty
    rcases h.begun hempty with hother | hother <;> rw [hpc] at hother <;> cases hother
  obtain ⟨first, rest, hreadings, hlen, hlast⟩ := h.readings.resolve_left hne
  apply loopHead
  · intro other hmem
    rcases List.mem_append.mp hmem with hmem | hmem
    · exact h.kinds other hmem
    · rw [List.mem_singleton.mp hmem]
      exact hverdict.symm
  · rw [Ledger.record, List.length_append, h.count]
    rfl
  · refine ⟨first, rest ++ [now], by rw [Ledger.record, hreadings, List.cons_append], ?_, ?_⟩
    · rw [Ledger.record, List.length_append, List.length_append, hlen]
      rfl
    · exact List.getLast_append_singleton (first :: rest)
  · have hnext : gaps (ledger.readings ++ [now]) = gaps ledger.readings ++ [now - c.start] := by
      rw [hreadings, List.cons_append, gaps_concat, hlast]
    rw [Ledger.record, hnext, ofKind_concat _ _ h.length_gaps, h.pushed]
  · intro _
    push_cast
    omega

end Booked

/-! ### All fibers -/

/-- Each fiber has its books in order, and what they share is what all of them put there. -/
structure Books (cfg : ClientConfig) (s : ClientProgram n) : Prop where
  booked : ∀ thr, Booked cfg (s.clients thr) (s.ledgers thr)
  timings : (s.stats.timings : Multiset Int)
    = Holdings.total (fun ledger => (ledger.pushed : Multiset Int)) s.ledgers Finset.univ
  dead : s.stats.deadPackets
    = Holdings.total (fun ledger => ledger.endings.count .dead) s.ledgers Finset.univ
  fits : ∀ t ∈ s.stats.timings, -2 ^ 63 ≤ t ∧ t < 2 ^ 63

theorem books_init (cfg : ClientConfig) (buf : Fin n → Buffer 65000) : Books cfg (init buf) where
  booked thr := Booked.spawn cfg (buf thr)
  timings := (Finset.sum_const_zero).symm
  dead := (Finset.sum_const_zero).symm
  fits t ht := by cases ht

namespace Books

variable {s s' : ClientProgram n} {thr : Fin n}

/-- One fiber moves on, puts `timings` and `dead` into what is shared, and into its own books. -/
theorem exchange (h : Books cfg s) {c : Client} {ledger : Ledger} (hbooked : Booked cfg c ledger)
    {timings : List Int} {dead : Nat}
    (hclients : s'.clients = Function.update s.clients thr c)
    (hledgers : s'.ledgers = Function.update s.ledgers thr ledger)
    (htimings : s'.stats.timings = s.stats.timings ++ timings)
    (hdead : s'.stats.deadPackets = s.stats.deadPackets + dead)
    (hfits : ∀ t ∈ timings, -2 ^ 63 ≤ t ∧ t < 2 ^ 63)
    (hpushed : ledger.pushed = (s.ledgers thr).pushed ++ timings)
    (hcount : ledger.endings.count .dead = (s.ledgers thr).endings.count .dead + dead) :
    Books cfg s' where
  booked other := by
    rw [hclients, hledgers]
    by_cases heq : other = thr
    · subst heq
      rw [Function.update_self, Function.update_self]
      exact hbooked
    · rw [Function.update_of_ne heq, Function.update_of_ne heq]
      exact h.booked other
  timings := by
    obtain ⟨others, hbefore, hafter⟩ :=
      Holdings.exchange (fun ledger : Ledger => (ledger.pushed : Multiset Int)) s.ledgers
        (Finset.mem_univ thr) ledger
    rw [hledgers, hafter, htimings, ← Multiset.coe_add, h.timings, hbefore, hpushed,
      ← Multiset.coe_add, add_right_comm]
  dead := by
    obtain ⟨others, hbefore, hafter⟩ :=
      Holdings.exchange (fun ledger : Ledger => ledger.endings.count .dead) s.ledgers
        (Finset.mem_univ thr) ledger
    rw [hledgers, hafter, hdead, h.dead, hbefore, hcount, add_right_comm]
  fits := by
    rw [htimings]
    exact List.forall_mem_append.mpr ⟨h.fits, hfits⟩

theorem move (h : Books cfg s) {c : Client} (hbooked : Booked cfg c (s.ledgers thr))
    (hclients : s'.clients = Function.update s.clients thr c) (hledgers : s'.ledgers = s.ledgers)
    (htimings : s'.stats.timings = s.stats.timings)
    (hdead : s'.stats.deadPackets = s.stats.deadPackets) : Books cfg s' := by
  have hledgers' : s'.ledgers = Function.update s.ledgers thr (s.ledgers thr) := by
    rw [hledgers, Function.update_eq_self]
  have htimings' : s'.stats.timings = s.stats.timings ++ [] := by rw [htimings, List.append_nil]
  have hdead' : s'.stats.deadPackets = s.stats.deadPackets + 0 := hdead
  exact h.exchange hbooked hclients hledgers' htimings' hdead' (fun t ht => by cases ht)
    (List.append_nil _).symm rfl

theorem iterationEnds (h : Books cfg s) {c : Client} (hbooked : Booked cfg c (s.ledgers thr))
    (hpc : c.pc = .receiving) (now : Int) (verdict : Verdict) :
    Books cfg (s.iterationEnds cfg thr c now verdict) := by
  rcases iterationEnds_cases cfg s thr c now verdict with heq | ⟨pc, hstop, heq⟩ |
    ⟨hverdict, hover, heq⟩ <;> rw [heq]
  · exact ⟨h.booked, h.timings, h.dead, h.fits⟩
  · refine h.move (hbooked.stop ?_ ?_) rfl rfl rfl rfl
    · rw [hpc]
      exact nofun
    · rw [hpc]
      exact hstop.imp_right fun heq => ⟨heq, nofun⟩
  · refine h.exchange (hbooked.record hpc hverdict now) rfl rfl rfl rfl ?_ rfl ?_
    · intro t ht
      rcases hverdict with rfl | rfl
      · cases ht
      · obtain rfl := List.mem_singleton.mp ht
        by_contra hout
        exact hover (Or.inl (if_neg hout))
    · rw [Ledger.record, List.count_append]
      rcases hverdict with rfl | rfl <;> rfl

end Books

theorem step_books {s s' : ClientProgram n} {e : Event A n} (h : Books cfg s)
    (hstep : s.step cfg e = some s') : Books cfg s' := by
  cases e with
  | start thr now =>
      obtain ⟨hpc, rfl⟩ := step_start hstep
      have hempty := (h.booked thr).fresh hpc
      refine h.exchange (Booked.started cfg (s.clients thr) now.toInt) rfl rfl
        (List.append_nil _).symm (Nat.add_zero _).symm nofun ?_ ?_
      · rw [hempty]
        rfl
      · rw [hempty]
        rfl
  | socketThrows thr =>
      obtain ⟨hpc, rfl⟩ := step_socketThrows hstep
      refine h.move ((h.booked thr).stop ?_ (Or.inl rfl)) rfl rfl rfl rfl
      rw [hpc]
      exact nofun
  | send thr res =>
      obtain ⟨hpc, rfl⟩ := step_send hstep
      exact h.move ((h.booked thr).send hpc res) rfl rfl rfl rfl
  | recv thr buf addr outcome now =>
      obtain ⟨hpc, rfl⟩ := step_recv hstep
      exact h.iterationEnds ((h.booked thr).setBuf buf) hpc now.toInt _
  | leave thr elapsed =>
      obtain ⟨hpc, rfl⟩ := step_leave hstep
      have hkeep : ((s.clients thr).leave s.stats elapsed).2.timings = s.stats.timings
          ∧ ((s.clients thr).leave s.stats elapsed).2.deadPackets = s.stats.deadPackets := by
        unfold Client.leave
        split <;> exact ⟨rfl, rfl⟩
      exact h.move ((h.booked thr).join hpc) rfl rfl hkeep.1 hkeep.2

/-! ### What the books add up to -/

namespace Books

variable {s : ClientProgram n}

theorem replies (h : Books cfg s) :
    s.stats.timings.length = ∑ thr, (s.ledgers thr).endings.count .reply := by
  have hcard := congrArg Multiset.card h.timings
  rw [Multiset.coe_card, Holdings.total, Multiset.card_sum] at hcard
  rw [hcard]
  apply Finset.sum_congr rfl
  intro thr _
  rw [Multiset.coe_card, (h.booked thr).pushed, length_ofKind _ (h.booked thr).length_gaps]

/-- Every iteration is over, with a reply or as a dead packet. -/
theorem endings (h : Books cfg s) (hjoined : s.Joined) (hpos : 0 ≤ cfg.iterations) (thr : Fin n) :
    (((s.ledgers thr).endings.count .reply + (s.ledgers thr).endings.count .dead : Nat) : Int)
      = cfg.iterations := by
  have hbooked := h.booked thr
  rw [count_add_count (by decide) hbooked.kinds, hbooked.count]
  exact le_antisymm (hbooked.le hpos) (hbooked.after (Or.inr (hjoined.2 thr)))

theorem joined (h : Books cfg s) (hjoined : s.Joined) (hpos : 0 ≤ cfg.iterations) :
    (s.stats.timings.length : Int) + s.stats.deadPackets = n * cfg.iterations := by
  rw [h.replies, h.dead, Holdings.total, ← Nat.cast_add, ← Finset.sum_add_distrib, Nat.cast_sum,
    Finset.sum_congr rfl fun thr _ => h.endings hjoined hpos thr, Finset.sum_const,
    Finset.card_univ, Fintype.card_fin, nsmul_eq_mul]

theorem telescopes (h : Books cfg s) (thr : Fin n) {first : Int}
    (hfirst : (s.ledgers thr).readings.head? = some first) :
    (s.ledgers thr).pushed.sum
        + (ofKind .dead (gaps (s.ledgers thr).readings) (s.ledgers thr).endings).sum
      = (s.clients thr).start - first := by
  have hbooked := h.booked thr
  have hlen := hbooked.length_gaps
  have hne : s.ledgers thr ≠ Ledger.empty := by
    intro hempty
    rw [hempty] at hfirst
    cases hfirst
  obtain ⟨first', rest, hreadings, _, hlast⟩ := hbooked.readings.resolve_left hne
  rw [hreadings] at hfirst hlen
  obtain rfl := Option.some.inj hfirst
  rw [hbooked.pushed, hreadings, sum_ofKind_gaps (by decide) _ hlen hbooked.kinds, hlast]

theorem durations_exact (h : Books cfg s) :
    s.durations.map (fun t => t.nanos.toInt) = s.stats.timings := by
  rw [durations, List.map_map]
  calc s.stats.timings.map _ = s.stats.timings.map id := by
        apply List.map_congr_left
        intro t ht
        exact Int64.toInt_ofInt_of_le (h.fits t ht).1 (h.fits t ht).2
    _ = s.stats.timings := List.map_id _

end Books

theorem books_throughout (cfg : ClientConfig) (buf : Fin n → Buffer 65000)
    (es : List (Event A n)) : Throughout (step cfg) (Books cfg) (init buf) es :=
  throughout_of_invariant es (books_init cfg buf) fun _ _ _ hbooks hstep => step_books hbooks hstep

/-- **The books of the client balance.** -/
theorem accounted_throughout (cfg : ClientConfig) (hfibers : 1 ≤ cfg.fibers)
    (hcount : 0 ≤ cfg.count) (buf : Fin cfg.fibers.toNat → Buffer 65000)
    (es : List (Event A cfg.fibers.toNat)) :
    Throughout (step cfg) (Accounted cfg) (init buf) es := by
  apply (books_throughout cfg buf es).imp
  intro s h
  have hpos : 0 ≤ cfg.iterations := Int.tdiv_nonneg hcount (by omega)
  refine ⟨fun hjoined => ?_, h.replies, h.dead, h.timings, fun thr => (h.booked thr).pushed,
    fun thr first => h.telescopes thr⟩
  rw [h.joined hjoined hpos, Int.toNat_of_nonneg (by omega)]

def twoRequests : ClientConfig :=
  { dataToSend := [104, 105], count := 2, fibers := 1 }

/-- The reply to the first one comes, that to the second is lost. -/
def secondLost : List (Event Nat 1) :=
  let echo := (Buffer.zero 65000).write 0 [104, 105, 48, 104, 105, 48] (by decide)
  [.start 0 1000, .send 0 3, .recv 0 echo Addr.new (.returned 6) 1700, .send 0 3,
    .recv 0 echo Addr.new (.returned (-ESQE_TIMEOUT)) 1001700, .leave 0 1000800]

theorem accounted_secondLost :
    ((run (step twoRequests) (init fun _ : Fin 1 => Buffer.zero 65000) secondLost).map fun s =>
        (decide s.Joined, s.stats.timings, s.stats.deadPackets)) = some (true, [700], 1) ∧
      Throughout (step twoRequests) (Accounted twoRequests)
        (init fun _ : Fin 1 => Buffer.zero 65000) secondLost :=
  ⟨by decide, accounted_throughout twoRequests (by decide) (by decide) _ secondLost⟩

/-! ### When there is something to report -/

/-- **After a run the report is defined exactly when some request was answered.** -/
theorem reportDefined_throughout (cfg : ClientConfig) (buf : Fin n → Buffer 65000)
    (es : List (Event A n)) :
    Throughout (step cfg)
      (fun s => s.Joined →
        ((report s.durations).Defined ↔ ∃ thr, .reply ∈ (s.ledgers thr).endings))
      (init buf) es := by
  apply (books_throughout cfg buf es).imp
  intro s h _
  have hempty : s.durations ≠ [] ↔ s.stats.timings.length ≠ 0 := by
    rw [← h.durations_exact, List.length_map, Ne, ← List.length_eq_zero_iff]
  rw [report_defined_iff, hempty, h.replies, Ne, Finset.sum_eq_zero_iff, not_forall]
  apply exists_congr
  intro thr
  rw [Classical.not_imp, List.count_eq_zero, not_not]
  exact and_iff_right (Finset.mem_univ thr)

/-- The only request is lost. -/
def onlyLost : List (Event Nat 1) :=
  [.start 0 1000, .send 0 3,
    .recv 0 (Buffer.zero 65000) Addr.new (.returned (-ESQE_TIMEOUT)) 1001000, .leave 0 1000100]

theorem not_reportDefined_onlyLost :
    ∃ s, run (step { twoRequests with count := 1 }) (init fun _ : Fin 1 => Buffer.zero 65000)
        onlyLost = some s ∧ s.Joined ∧ ¬ (report s.durations).Defined := by
  have hrun : ((run (step { twoRequests with count := 1 })
      (init fun _ : Fin 1 => Buffer.zero 65000) onlyLost).map fun s =>
        (decide s.Joined, s.durations)) = some (true, []) := by decide
  obtain ⟨s, hs, hfinal⟩ := Option.map_eq_some_iff.mp hrun
  obtain ⟨hjoined, hdurations⟩ := Prod.mk.inj hfinal
  refine ⟨s, hs, of_decide_eq_true hjoined, fun hdefined => ?_⟩
  rw [hdurations] at hdefined
  exact absurd hdefined.min (by decide)

end ClientProgram

end Hnet
