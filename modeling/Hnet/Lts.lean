import Mathlib.Tactic.ByContra

/-!
# Runs of a labelled transition system

A system is a partial step function `step : σ → ε → Option σ`: an event `ε` is enabled in a state
when the step gives `some` next state. A run is a list of events. `Throughout` says that a property
holds in every state the run visits, `Along` that every step of it is taken under a condition on
the state before it, and the rules below carry an invariant from the second to the first.
-/

namespace Lts

variable {σ ε τ δ : Type*}

/-- The state the events lead to, `none` once one of them is not enabled. -/
def run (step : σ → ε → Option σ) : σ → List ε → Option σ
  | s, [] => some s
  | s, e :: es => (step s e).bind fun s' => run step s' es

/-- Every step of the run meets `ok` in the state before it. -/
def Along (step : σ → ε → Option σ) (ok : σ → ε → Prop) : σ → List ε → Prop
  | _, [] => True
  | s, e :: es => ∀ s', step s e = some s' → ok s e ∧ Along step ok s' es

/-- Every state the run visits, the first one included, satisfies `P`. -/
def Throughout (step : σ → ε → Option σ) (P : σ → Prop) : σ → List ε → Prop
  | s, [] => P s
  | s, e :: es => P s ∧ ∀ s', step s e = some s' → Throughout step P s' es

/-- Whether a run is under a decidable condition can be computed. -/
instance decidableAlong (step : σ → ε → Option σ) (ok : σ → ε → Prop)
    [∀ s e, Decidable (ok s e)] : ∀ (s : σ) (es : List ε), Decidable (Along step ok s es)
  | _, [] => isTrue trivial
  | s, e :: es =>
      match hstep : step s e with
      | none => isTrue fun s' hs' => by rw [hstep] at hs'; cases hs'
      | some s' =>
          have := decidableAlong step ok s' es
          decidable_of_iff (ok s e ∧ Along step ok s' es)
            ⟨fun h t ht => Option.some.inj (hstep.symm.trans ht) ▸ h, fun h => h s' hstep⟩

instance decidableThroughout (step : σ → ε → Option σ) (P : σ → Prop) [DecidablePred P] :
    ∀ (s : σ) (es : List ε), Decidable (Throughout step P s es)
  | s, [] => inferInstanceAs (Decidable (P s))
  | s, e :: es =>
      match hstep : step s e with
      | none => decidable_of_iff (P s)
          ⟨fun h => ⟨h, fun s' hs' => by rw [hstep] at hs'; cases hs'⟩, fun h => h.1⟩
      | some s' =>
          have := decidableThroughout step P s' es
          decidable_of_iff (P s ∧ Throughout step P s' es)
            ⟨fun h => ⟨h.1, fun t ht => Option.some.inj (hstep.symm.trans ht) ▸ h.2⟩,
              fun h => ⟨h.1, h.2 s' hstep⟩⟩

/-- A step behind a guard that has been taken. -/
theorem of_guarded {c : Prop} [Decidable c] {s s' : σ}
    (h : (if c then some s else none) = some s') : c ∧ s' = s := by
  obtain ⟨hc, heq⟩ := Option.ite_none_right_eq_some.mp h
  exact ⟨hc, (Option.some.inj heq).symm⟩

section Rules

variable {step : σ → ε → Option σ} {ok ok' : σ → ε → Prop} {P Q Inv : σ → Prop}

@[simp]
theorem run_nil (s : σ) : run step s [] = some s := rfl

@[simp]
theorem run_cons (s : σ) (e : ε) (es : List ε) :
    run step s (e :: es) = (step s e).bind fun s' => run step s' es := rfl

theorem run_append (s : σ) (es es' : List ε) :
    run step s (es ++ es') = (run step s es).bind fun middle => run step middle es' := by
  induction es generalizing s with
  | nil => rfl
  | cons e es ih =>
      rw [List.cons_append, run_cons, run_cons, Option.bind_assoc]
      exact congrArg ((step s e).bind) (funext fun middle => ih middle)

theorem Throughout.first {s : σ} {es : List ε} (h : Throughout step P s es) : P s := by
  cases es with
  | nil => exact h
  | cons e es => exact h.1

theorem Throughout.last {s s' : σ} {es : List ε} (h : Throughout step P s es)
    (hrun : run step s es = some s') : P s' := by
  induction es generalizing s with
  | nil =>
      obtain rfl : s = s' := by simpa using hrun
      exact h
  | cons e es ih =>
      obtain ⟨middle, hstep, hrest⟩ := Option.bind_eq_some_iff.mp hrun
      exact ih (h.2 middle hstep) hrest

theorem Throughout.imp {s : σ} {es : List ε} (himp : ∀ s, P s → Q s)
    (h : Throughout step P s es) : Throughout step Q s es := by
  induction es generalizing s with
  | nil => exact himp s h
  | cons e es ih => exact ⟨himp s h.1, fun s' hstep => ih (h.2 s' hstep)⟩

theorem Throughout.and {s : σ} {es : List ε} (hP : Throughout step P s es)
    (hQ : Throughout step Q s es) : Throughout step (fun s => P s ∧ Q s) s es := by
  induction es generalizing s with
  | nil => exact ⟨hP, hQ⟩
  | cons e es ih => exact ⟨⟨hP.1, hQ.1⟩, fun s' hstep => ih (hP.2 s' hstep) (hQ.2 s' hstep)⟩

theorem Along.imp {s : σ} {es : List ε} (himp : ∀ s e, ok s e → ok' s e)
    (h : Along step ok s es) : Along step ok' s es := by
  induction es generalizing s with
  | nil => trivial
  | cons e es ih =>
      exact fun s' hstep => ⟨himp s e (h s' hstep).1, ih (h s' hstep).2⟩

/-- **The invariant rule.** What the first state satisfies and every step taken under `ok`
preserves holds throughout each run whose steps are all taken under `ok`. -/
theorem Along.throughout {s : σ} {es : List ε} (h : Along step ok s es) (hinit : Inv s)
    (hstep : ∀ s e s', Inv s → ok s e → step s e = some s' → Inv s') :
    Throughout step Inv s es := by
  induction es generalizing s with
  | nil => exact hinit
  | cons e es ih =>
      refine ⟨hinit, fun s' hs' => ?_⟩
      obtain ⟨hok, hrest⟩ := h s' hs'
      exact ih hrest (hstep s e s' hinit hok hs')

/-- The invariant rule, when what the states of the run satisfy is needed of the state behind a
step. -/
theorem Throughout.carries {s : σ} {es : List ε} (h : Throughout step P s es) (hinit : Inv s)
    (hstep : ∀ s e s', Inv s → P s' → step s e = some s' → Inv s') :
    Throughout step Inv s es := by
  induction es generalizing s with
  | nil => exact hinit
  | cons e es ih =>
      refine ⟨hinit, fun s' hs' => ?_⟩
      have hrest := h.2 s' hs'
      exact ih hrest (hstep s e s' hinit hrest.first hs')

/-- **The counting rule.** An invariant that speaks of the number of steps taken so far holds of
the whole run and its length. -/
theorem Along.counted {J : Nat → σ → Prop} {s s' : σ} {es : List ε} {k : Nat}
    (h : Along step ok s es) (hinit : J k s)
    (hstep : ∀ k s e s', J k s → ok s e → step s e = some s' → J (k + 1) s')
    (hrun : run step s es = some s') : J (k + es.length) s' := by
  induction es generalizing s k with
  | nil =>
      obtain rfl := Option.some.inj hrun
      exact hinit
  | cons e es ih =>
      obtain ⟨middle, hfirst, hrest⟩ := Option.bind_eq_some_iff.mp hrun
      obtain ⟨hok, hlater⟩ := h middle hfirst
      have hcounted := ih hlater (hstep k s e middle hinit hok hfirst) hrest
      rwa [List.length_cons, Nat.add_comm es.length 1, ← Nat.add_assoc]

theorem Along.append {s s' : σ} {es es' : List ε} (h : Along step ok s es)
    (hrun : run step s es = some s') (h' : Along step ok s' es') :
    Along step ok s (es ++ es') := by
  induction es generalizing s with
  | nil =>
      obtain rfl := Option.some.inj hrun
      exact h'
  | cons e es ih =>
      obtain ⟨middle, hstep, hrest⟩ := Option.bind_eq_some_iff.mp hrun
      intro next hnext
      obtain rfl := Option.some.inj (hstep.symm.trans hnext)
      exact ⟨(h middle hstep).1, ih (h middle hstep).2 hrest⟩

/-- **The draining rule.** When from every state that is not done some steps under `ok` lead to a
state of smaller measure, then from every state steps under `ok` lead to one that is done. -/
theorem drains {Done : σ → Prop} (measure : σ → Nat)
    (hprogress : ∀ s, P s → ¬ Done s → ∃ es s', Along step ok s es ∧ run step s es = some s'
      ∧ P s' ∧ measure s' < measure s) {s : σ} (h : P s) :
    ∃ es s', Along step ok s es ∧ run step s es = some s' ∧ Done s' := by
  induction hk : measure s using Nat.strongRecOn generalizing s with
  | ind k ih =>
      by_cases hdone : Done s
      · exact ⟨[], s, trivial, rfl, hdone⟩
      · obtain ⟨es, middle, halong, hrun, hinv, hlt⟩ := hprogress s h hdone
        obtain ⟨es', s', halong', hrun', hdone'⟩ := ih (measure middle) (hk ▸ hlt) hinv rfl
        refine ⟨es ++ es', s', halong.append hrun halong', ?_, hdone'⟩
        rw [run_append, hrun]
        exact hrun'

/-- A property of the states of a run is a condition under which its steps are taken. -/
theorem Throughout.along {s : σ} {es : List ε} (h : Throughout step P s es) :
    Along step (fun s _ => P s) s es := by
  induction es generalizing s with
  | nil => trivial
  | cons e es ih => exact fun s' hstep => ⟨h.1, ih (h.2 s' hstep)⟩

theorem Along.and {s : σ} {es : List ε} (h : Along step ok s es) (h' : Along step ok' s es) :
    Along step (fun s e => ok s e ∧ ok' s e) s es := by
  induction es generalizing s with
  | nil => trivial
  | cons e es ih =>
      exact fun s' hstep => ⟨⟨(h s' hstep).1, (h' s' hstep).1⟩, ih (h s' hstep).2 (h' s' hstep).2⟩

theorem along_true (s : σ) (es : List ε) : Along step (fun _ _ => True) s es := by
  induction es generalizing s with
  | nil => trivial
  | cons e es ih => exact fun s' _ => ⟨trivial, ih s'⟩

theorem throughout_of_invariant {s : σ} (es : List ε) (hinit : Inv s)
    (hstep : ∀ s e s', Inv s → step s e = some s' → Inv s') : Throughout step Inv s es :=
  (along_true s es).throughout hinit fun s e s' hinv _ => hstep s e s' hinv

/-- **The exact-condition rule.** When steps under `ok` preserve an invariant that implies `P`, and
a step not under `ok` leaves the invariant for a state without `P`, then `P` holds throughout a run
exactly when all its steps are under `ok`. -/
theorem throughout_iff_along {s : σ} (es : List ε) (hinit : Inv s) (hP : ∀ s, Inv s → P s)
    (hstep : ∀ s e s', Inv s → ok s e → step s e = some s' → Inv s')
    (hbad : ∀ s e s', Inv s → ¬ ok s e → step s e = some s' → ¬ P s') :
    Throughout step P s es ↔ Along step ok s es := by
  refine ⟨fun h => ?_, fun h => (h.throughout hinit hstep).imp hP⟩
  induction es generalizing s with
  | nil => trivial
  | cons e es ih =>
      intro s' hs'
      have hrest := h.2 s' hs'
      have hok : ok s e := by
        by_contra hnot
        exact hbad s e s' hinit hnot hs' hrest.first
      exact ⟨hok, ih (hstep s e s' hinit hok hs') hrest⟩

end Rules

section Simulation

variable {step : σ → ε → Option σ} {step' : τ → δ → Option τ} {ok : σ → ε → Prop}
  {ok' : τ → δ → Prop} {P : τ → Prop}

/-- `π` maps every step of the concrete system taken under `ok` to no step or to one step, taken
under `ok'`, of the abstract one. -/
def Simulates (step : σ → ε → Option σ) (ok : σ → ε → Prop) (step' : τ → δ → Option τ)
    (ok' : τ → δ → Prop) (π : σ → τ) : Prop :=
  ∀ s e s', ok s e → step s e = some s' →
    π s' = π s ∨ ∃ d, ok' (π s) d ∧ step' (π s) d = some (π s')

/-- **The simulation rule.** What every run of the abstract system under `ok'` satisfies throughout
holds, read through `π`, throughout every run of the concrete system under `ok`. -/
theorem Simulates.throughout {π : σ → τ} (hsim : Simulates step ok step' ok' π) {s : σ}
    {es : List ε} (h : Along step ok s es)
    (habs : ∀ ds, Along step' ok' (π s) ds → Throughout step' P (π s) ds) :
    Throughout step (fun s => P (π s)) s es := by
  induction es generalizing s with
  | nil => exact (habs [] trivial).first
  | cons e es ih =>
      refine ⟨(habs [] trivial).first, fun s' hs' => ?_⟩
      obtain ⟨hok, hrest⟩ := h s' hs'
      refine ih hrest fun ds hds => ?_
      rcases hsim s e s' hok hs' with hstutter | ⟨d, hd, hstep⟩
      · rw [hstutter] at hds ⊢
        exact habs ds hds
      · have hlong : Along step' ok' (π s) (d :: ds) := by
          intro t ht
          obtain rfl : π s' = t := by simpa [hstep] using ht
          exact ⟨hd, hds⟩
        exact (habs (d :: ds) hlong).2 (π s') hstep

/-- A step taken under `ok` is matched, from every abstract state that `R` relates to the first one,
by no step or by one step taken under `ok'`. -/
def Refines (step : σ → ε → Option σ) (ok : σ → ε → Prop) (step' : τ → δ → Option τ)
    (ok' : τ → δ → Prop) (R : σ → τ → Prop) : Prop :=
  ∀ s e s' t, R s t → ok s e → step s e = some s' →
    R s' t ∨ ∃ d t', ok' t d ∧ step' t d = some t' ∧ R s' t'

/-- **The forward simulation rule.** -/
theorem Refines.exists_run {R : σ → τ → Prop} (hrefines : Refines step ok step' ok' R) {s s' : σ}
    {t : τ} {es : List ε} (h : Along step ok s es) (hR : R s t) (hrun : run step s es = some s') :
    ∃ ds t', Along step' ok' t ds ∧ run step' t ds = some t' ∧ R s' t' := by
  induction es generalizing s t with
  | nil =>
      obtain rfl := Option.some.inj hrun
      exact ⟨[], t, trivial, rfl, hR⟩
  | cons e es ih =>
      obtain ⟨middle, hfirst, hrest⟩ := Option.bind_eq_some_iff.mp hrun
      obtain ⟨hok, hlater⟩ := h middle hfirst
      rcases hrefines s e middle t hR hok hfirst with hstutter | ⟨d, between, hd, hstep, hnext⟩
      · exact ih hlater hstutter hrest
      · obtain ⟨ds, t', halong, hrun', hlast⟩ := ih hlater hnext hrest
        refine ⟨d :: ds, t', fun t₁ ht₁ => ?_, ?_, hlast⟩
        · obtain rfl := Option.some.inj (hstep.symm.trans ht₁)
          exact ⟨hd, halong⟩
        · rw [run_cons, hstep]
          exact hrun'

end Simulation

section Trace

variable {step : σ → ε → Option σ} {step' : τ → δ → Option τ} {ok : σ → ε → Prop}

/-- The labels of the steps of a run that have one, in order. -/
def trace (step : σ → ε → Option σ) (label : σ → ε → Option δ) : σ → List ε → List δ
  | _, [] => []
  | s, e :: es =>
      (label s e).toList ++ match step s e with
        | none => []
        | some s' => trace step label s' es

/-- **The history rule.** An invariant that speaks of the labels so far holds of the whole run and
its labels. -/
theorem Along.traced {label : σ → ε → Option δ} {J : List δ → σ → Prop} {s s' : σ} {es : List ε}
    {ds : List δ} (h : Along step ok s es) (hinit : J ds s)
    (hstep : ∀ ds s e s', J ds s → ok s e → step s e = some s' → J (ds ++ (label s e).toList) s')
    (hrun : run step s es = some s') : J (ds ++ trace step label s es) s' := by
  induction es generalizing s ds with
  | nil =>
      obtain rfl := Option.some.inj hrun
      rwa [trace, List.append_nil]
  | cons e es ih =>
      obtain ⟨middle, hfirst, hrest⟩ := Option.bind_eq_some_iff.mp hrun
      obtain ⟨hok, hlater⟩ := h middle hfirst
      have htraced := ih hlater (hstep ds s e middle hinit hok hfirst) hrest
      rwa [List.append_assoc, ← show trace step label s (e :: es)
        = (label s e).toList ++ trace step label middle es by rw [trace, hfirst]] at htraced

/-- A step taken under `ok` is, through `π`, the step of the abstract system that its label
names, and no step if it has none. -/
def Tracks (step : σ → ε → Option σ) (ok : σ → ε → Prop) (step' : τ → δ → Option τ)
    (label : σ → ε → Option δ) (π : σ → τ) : Prop :=
  ∀ s e s', ok s e → step s e = some s' → run step' (π s) (label s e).toList = some (π s')

/-- **The refinement rule.** The labels of a run under `ok` are a run of the abstract system. -/
theorem Tracks.run_trace {label : σ → ε → Option δ} {π : σ → τ}
    (htracks : Tracks step ok step' label π) {s s' : σ} {es : List ε} (h : Along step ok s es)
    (hrun : run step s es = some s') :
    run step' (π s) (trace step label s es) = some (π s') := by
  induction es generalizing s with
  | nil =>
      obtain rfl := Option.some.inj hrun
      rfl
  | cons e es ih =>
      obtain ⟨middle, hstep, hrest⟩ := Option.bind_eq_some_iff.mp hrun
      obtain ⟨hok, hlater⟩ := h middle hstep
      rw [trace, hstep, run_append, htracks s e middle hok hstep]
      exact ih hlater hrest

/-- What is known of the label of each step holds along the run of the labels. -/
theorem Tracks.along_trace {label : σ → ε → Option δ} {π : σ → τ} {ok' : τ → δ → Prop}
    (htracks : Tracks step ok step' label π)
    (hlabel : ∀ s e s', ok s e → step s e = some s' → ∀ d, label s e = some d → ok' (π s) d)
    {s s' : σ} {es : List ε} (h : Along step ok s es) (hrun : run step s es = some s') :
    Along step' ok' (π s) (trace step label s es) := by
  induction es generalizing s with
  | nil => trivial
  | cons e es ih =>
      obtain ⟨middle, hstep, hrest⟩ := Option.bind_eq_some_iff.mp hrun
      obtain ⟨hok, hlater⟩ := h middle hstep
      have hlabelled := htracks s e middle hok hstep
      have hfrom := ih hlater hrest
      rw [trace, hstep]
      cases hd : label s e with
      | none =>
          rw [hd] at hlabelled
          rw [Option.some.inj hlabelled]
          exact hfrom
      | some d =>
          rw [hd] at hlabelled
          have hnext : step' (π s) d = some (π middle) := by simpa using hlabelled
          intro t ht
          obtain rfl := Option.some.inj (hnext.symm.trans ht)
          exact ⟨hlabel s e middle hok hstep d hd, hfrom⟩

theorem filterMap_trace {γ : Type*} (step : σ → ε → Option σ) (label : σ → ε → Option δ)
    (g : δ → Option γ) (s : σ) (es : List ε) :
    (trace step label s es).filterMap g = trace step (fun s e => (label s e).bind g) s es := by
  induction es generalizing s with
  | nil => rfl
  | cons e es ih =>
      have hhead : (label s e).toList.filterMap g = ((label s e).bind g).toList := by
        cases label s e with
        | none => rfl
        | some d => cases hg : g d <;> simp [hg]
      rw [trace, trace, List.filterMap_append, hhead]
      cases step s e with
      | none => rfl
      | some s' => exact congrArg _ (ih s')

theorem trace_congr {label label' : σ → ε → Option δ} {s s' : σ} {es : List ε}
    (h : Along step ok s es)
    (hsame : ∀ s e s', ok s e → step s e = some s' → label s e = label' s e)
    (hrun : run step s es = some s') : trace step label s es = trace step label' s es := by
  induction es generalizing s with
  | nil => rfl
  | cons e es ih =>
      obtain ⟨middle, hstep, hrest⟩ := Option.bind_eq_some_iff.mp hrun
      obtain ⟨hok, hlater⟩ := h middle hstep
      rw [trace, trace, hstep, hsame s e middle hok hstep]
      exact congrArg _ (ih hlater hrest)

end Trace

end Lts
