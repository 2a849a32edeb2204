import Hnet.Proof.CliAccounting
import Hnet.Proof.Statistics

/-!
# The report of the other UDP client

The average of `cli.cc` is a number of microseconds, cut off twice, so it lies between the extremes
up to one of them. Nobody asks whether there is a timing at all, but every run that ends has one for
each of its iterations, unless another host has sent to the clients.
-/

namespace Hnet

open OrderStatistics

variable {timings : List Duration}

/-! ### The average in microseconds -/

theorem averageMicros_eq (hne : timings ≠ []) {sum : Duration} (hsum : accumulate timings = .ok sum)
    (hnonneg : 0 ≤ sum.nanos.toInt) :
    ∃ avg : Nat, averageMicros timings = .ok avg
      ∧ (avg : Int) = sum.nanos.toInt / timings.length / 1000 := by
  have hmicros : sum.micros.toInt = sum.nanos.toInt / 1000 := by
    rw [TimeBase.micros, Int64.toInt_div_of_ne_right _ _ (by decide)]
    exact Int.tdiv_eq_ediv_of_nonneg hnonneg
  have hlt := sum.nanos.toInt_lt
  refine ⟨sum.micros.toUInt64.toNat / timings.length, ?_, ?_⟩
  · rw [averageMicros, hsum]
    exact if_neg fun hzero => hne (List.length_eq_zero_iff.mp hzero)
  · rw [Int.natCast_ediv, toNat_toUInt64, hmicros, Int.emod_eq_of_lt (by omega) (by omega),
      Int.ediv_ediv_of_nonneg (by decide), Int.ediv_ediv_of_nonneg (Int.natCast_nonneg _),
      mul_comm]

/-- **The report of `cli.cc` is in order**: its values grow, each of them is a timing, and the
average lies between the least and the greatest up to a microsecond. -/
theorem cliReport_ordered (hne : timings ≠ [])
    (hfits : 0 ≤ total (cutFirst timings) ∧ total (cutFirst timings) < 2 ^ 63)
    (hneg : -2 ^ 63 ≤ total ((cutFirst timings).filter fun t => t.nanos.toInt < 0)) :
    ∃ low high qs, ∃ avg : Nat,
      cliReport timings =
          { avg := .ok avg, min := some low, max := some high, quantiles := qs.map some }
        ∧ (low :: (qs ++ [high])).Pairwise (fun t other => t.nanos.toInt ≤ other.nanos.toInt)
        ∧ (∀ t ∈ low :: (qs ++ [high]), t ∈ cutFirst timings)
        ∧ low.nanos.toInt < 1000 * ((avg : Int) + 1) ∧ 1000 * (avg : Int) ≤ high.nanos.toInt := by
  have hkept : cutFirst timings ≠ [] := cutFirst_ne_nil_iff.mpr hne
  obtain ⟨low, _, high, _, hbounds, qs, hstats, hgrow, hmem⟩ := exists_extremes hkept
  set sorted := (cutFirst timings).insertionSort Sorts with hsorted
  have hperm : sorted.Perm (cutFirst timings) := List.perm_insertionSort Sorts _
  have hsortedNe : sorted ≠ [] := by
    intro hnil
    rw [hnil] at hperm
    exact hkept hperm.symm.eq_nil
  have htotal : total sorted = total (cutFirst timings) := total_perm hperm
  have hsum : ∃ sum, accumulate sorted = .ok sum ∧ sum.nanos.toInt = total sorted := by
    rcases accumulate_sorted (pairwise_sorted _) (by rw [← hsorted, htotal]; exact hfits.2) with
      ⟨_, hsum⟩ | ⟨hover, _⟩
    · exact hsum
    · rw [← hsorted, total_perm (hperm.filter _)] at hover
      exact absurd hneg (not_le.mpr hover)
  obtain ⟨sum, hsum, hexact⟩ := hsum
  obtain ⟨avg, havg, hvalue⟩ :=
    averageMicros_eq hsortedNe hsum (by rw [hexact, htotal]; exact hfits.1)
  have hlow : ∀ x ∈ sorted.map (fun t => t.nanos.toInt), low.nanos.toInt ≤ x :=
    List.forall_mem_map.mpr fun t ht => (hbounds t (hperm.mem_iff.mp ht)).1
  have hhigh : ∀ x ∈ sorted.map (fun t => t.nanos.toInt), x ≤ high.nanos.toInt :=
    List.forall_mem_map.mpr fun t ht => (hbounds t (hperm.mem_iff.mp ht)).2
  have hmean := mean_mem (by simpa using hsortedNe) hlow hhigh
  rw [List.length_map] at hmean
  rw [hexact, total] at hvalue
  refine ⟨low, high, qs, avg, ?_, hgrow, hmem, by omega, by omega⟩
  rw [cliReport, hstats]
  exact congrArg (fun avg => Report.mk avg (some low) (some high) (qs.map some)) havg

theorem cliReport_ordered_three :
    ∃ low high qs, ∃ avg : Nat,
      cliReport [⟨2500⟩, ⟨1000⟩, ⟨-200⟩] =
          { avg := .ok avg, min := some low, max := some high, quantiles := qs.map some }
        ∧ (low :: (qs ++ [high])).Pairwise (fun t other => t.nanos.toInt ≤ other.nanos.toInt)
        ∧ (∀ t ∈ low :: (qs ++ [high]), t ∈ cutFirst [⟨2500⟩, ⟨1000⟩, ⟨-200⟩])
        ∧ low.nanos.toInt < 1000 * ((avg : Int) + 1) ∧ 1000 * (avg : Int) ≤ high.nanos.toInt :=
  cliReport_ordered (by decide) (by decide) (by decide)

/-! ### When there is something to report -/

/-- The two averages fail alike. -/
theorem averageMicros_error_iff {fault : Fault} :
    averageMicros timings = .error fault ↔ average timings = .error fault := by
  unfold averageMicros average
  cases accumulate timings with
  | error other => rfl
  | ok sum =>
      simp only [bind, Except.bind]
      split
      · rfl
      · exact ⟨fun h => (by cases h), fun h => by cases h⟩

theorem cliReport_defined_iff (timings : List Duration) :
    (cliReport timings).Defined ↔ timings ≠ [] := by
  rw [← report_defined_iff]
  have havg : (cliReport timings).avg = .error .divisionByZero ↔
      (report timings).avg = .error .divisionByZero := averageMicros_error_iff
  constructor
  · intro h
    exact ⟨fun heq => h.avg (havg.mpr heq), h.min, h.max, h.quantiles⟩
  · intro h
    exact ⟨fun heq => h.avg (havg.mp heq), h.min, h.max, h.quantiles⟩

/-- **A run of `cli.cc` that ends has a defined report exactly when it was to do anything**,
whatever the network has lost, delayed, reordered and repeated, if other hosts send to the server
only: the socket is not connected, and the message itself would end its fiber. -/
theorem CliEcho.cliReport_throughout {A : Type} {m : Nat} [DecidableEq A] (cfg : CliConfig)
    (topo : CliTopology A) (fiberBuf : Fin cfg.threads.toNat → Buffer 65000)
    (serverBuf : Fin m → Buffer 65000) (es : List (Event A cfg.threads.toNat m)) :
    Lts.Throughout (step cfg topo)
      (fun s => s.Joined → ((cliReport s.durations).Defined ↔ 0 < cfg.threads ∧ 0 < cfg.count))
      (init fiberBuf serverBuf) es := by
  apply (books_throughout cfg topo fiberBuf serverBuf es).imp
  intro s h hjoined
  have hlength := (h.2.cliSafe h.1).joined hjoined
  have hempty : s.durations ≠ [] ↔ s.timings.length ≠ 0 := by
    rw [durations, Ne, List.map_eq_nil_iff, ← List.length_eq_zero_iff]
  rw [cliReport_defined_iff, hempty, hlength, Nat.mul_ne_zero_iff]
  omega

end Hnet
