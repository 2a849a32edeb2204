import Hnet.Blocking

/-!
# Programs that make blocking calls

A program over a machine of blocking calls either asks for something and waits for the answer, or
has ended. However many of them run beside each other, what one of them has come to depends on the
answers to its own calls alone, each taken once and in the order in which they were given.
-/

namespace Hnet

open Lts

/-- What a program asks next, `none` once it has ended, and how it goes on with an answer. -/
structure Caller (σ ρ α : Type) where
  asks : σ → Option ρ
  resume : σ → α → σ

structure Callers (ι σ ρ α : Type) where
  blocking : Blocking ι ρ α
  programs : ι → σ

namespace Callers

variable {ι σ ρ α δ : Type}

def init (programs : ι → σ) : Callers ι σ ρ α where
  blocking := .init
  programs := programs

variable [DecidableEq ι] [DecidableEq ρ]

def step (caller : Caller σ ρ α) (s : Callers ι σ ρ α) :
    Blocking.Event ι ρ α → Option (Callers ι σ ρ α)
  | .ask f question =>
      if caller.asks (s.programs f) = some question then
        (s.blocking.step (.ask f question)).map fun blocking => { s with blocking := blocking }
      else
        none
  | .answer f answer =>
      (s.blocking.step (.answer f answer)).map fun blocking => { s with blocking := blocking }
  | .ret f =>
      match s.blocking.calls f with
      | .answered _ answer =>
          (s.blocking.step (.ret f)).map fun blocking =>
            { blocking := blocking
              programs := Function.update s.programs f (caller.resume (s.programs f) answer) }
      | _ => none

/-! ### What a step can do -/

section Steps

variable {caller : Caller σ ρ α} {s s' : Callers ι σ ρ α} {f : ι}

theorem step_ask {question : ρ} (h : step caller s (.ask f question) = some s') :
    s.blocking.calls f = .idle ∧ s'.programs = s.programs ∧
      s'.blocking.calls = Function.update s.blocking.calls f (.asked question) ∧
      s'.blocking.returned = s.blocking.returned := by
  simp only [step] at h
  split at h
  · obtain ⟨blocking, hstep, rfl⟩ := Option.map_eq_some_iff.mp h
    obtain ⟨hidle, rfl⟩ := Blocking.step_ask hstep
    exact ⟨hidle, rfl, rfl, rfl⟩
  · cases h

theorem step_answer {answer : α} (h : step caller s (.answer f answer) = some s') :
    ∃ question, s.blocking.calls f = .asked question ∧ s'.programs = s.programs ∧
      s'.blocking.calls = Function.update s.blocking.calls f (.answered question answer) ∧
      s'.blocking.returned = s.blocking.returned := by
  obtain ⟨blocking, hstep, rfl⟩ := Option.map_eq_some_iff.mp h
  obtain ⟨question, hasked, rfl⟩ := Blocking.step_answer hstep
  exact ⟨question, hasked, rfl, rfl, rfl⟩

theorem step_ret (h : step caller s (.ret f) = some s') :
    ∃ question answer, s.blocking.calls f = .answered question answer ∧
      s'.programs = Function.update s.programs f (caller.resume (s.programs f) answer) ∧
      s'.blocking.calls = Function.update s.blocking.calls f .idle ∧
      s'.blocking.returned = s.blocking.returned ++ [(f, answer)] := by
  simp only [step] at h
  split at h
  · rename_i question answer hanswered
    obtain ⟨blocking, hstep, rfl⟩ := Option.map_eq_some_iff.mp h
    obtain ⟨_, _, hanswered', rfl⟩ := Blocking.step_ret hstep
    obtain ⟨rfl, rfl⟩ := BlockingCall.answered.inj (hanswered.symm.trans hanswered')
    exact ⟨question, answer, hanswered, rfl, rfl, rfl⟩
  · cases h

theorem step_ask_of_asks {question : ρ} {blocking : Blocking ι ρ α}
    (hasks : caller.asks (s.programs f) = some question)
    (h : s.blocking.step (.ask f question) = some blocking) :
    step caller s (.ask f question) = some { s with blocking := blocking } := by
  simp only [step, if_pos hasks, h, Option.map_some]

theorem step_ret_of_answered {question : ρ} {answer : α} {blocking : Blocking ι ρ α}
    (hanswered : s.blocking.calls f = .answered question answer)
    (h : s.blocking.step (.ret f) = some blocking) :
    step caller s (.ret f) = some
      { blocking := blocking
        programs := Function.update s.programs f (caller.resume (s.programs f) answer) } := by
  simp only [step, hanswered, h, Option.map_some]

theorem step_blocking {e : Blocking.Event ι ρ α} (h : step caller s e = some s') :
    s.blocking.step e = some s'.blocking := by
  cases e with
  | ask f question =>
      simp only [step] at h
      split at h
      · obtain ⟨blocking, hstep, rfl⟩ := Option.map_eq_some_iff.mp h
        exact hstep
      · cases h
  | answer f answer =>
      obtain ⟨blocking, hstep, rfl⟩ := Option.map_eq_some_iff.mp h
      exact hstep
  | ret f =>
      simp only [step] at h
      split at h
      · obtain ⟨blocking, hstep, rfl⟩ := Option.map_eq_some_iff.mp h
        exact hstep
      · cases h

theorem run_blocking {es : List (Blocking.Event ι ρ α)} (h : run (step caller) s es = some s') :
    run Blocking.step s.blocking es = some s'.blocking := by
  induction es generalizing s with
  | nil =>
      obtain rfl := Option.some.inj h
      rfl
  | cons e es ih =>
      obtain ⟨middle, hstep, hrest⟩ := Option.bind_eq_some_iff.mp h
      rw [run_cons, step_blocking hstep, Option.bind_some]
      exact ih hrest

end Steps

/-! ### A program and its answers -/

/-- Every answer is one that the program which waits for it can get. -/
def AnswersFit (Fits : σ → α → Prop) (s : Callers ι σ ρ α) : Blocking.Event ι ρ α → Prop
  | .answer f answer => Fits (s.programs f) answer
  | .ask _ _ | .ret _ => True

section Follows

variable {caller : Caller σ ρ α} {Fits : σ → α → Prop} {pstep : σ → δ → Option σ}
  {read : α → Option δ}

/-- Each program has taken the steps that the answers it took home stand for, and can take the one
of the answer that waits for it. -/
structure Follows (pstep : σ → δ → Option σ) (read : α → Option δ) (Fits : σ → α → Prop)
    (programs : ι → σ) (s : Callers ι σ ρ α) : Prop where
  taken : ∀ f, run pstep (programs f)
    ((Blocking.takenBy f s.blocking.returned).filterMap read) = some (s.programs f)
  fits : ∀ f question answer, s.blocking.calls f = .answered question answer →
    Fits (s.programs f) answer

theorem step_follows {programs : ι → σ} {s s' : Callers ι σ ρ α} {e : Blocking.Event ι ρ α}
    (hagree : ∀ p a, Fits p a → ∃ d, read a = some d ∧ pstep p d = some (caller.resume p a))
    (hinv : Follows pstep read Fits programs s) (hok : AnswersFit Fits s e)
    (h : step caller s e = some s') : Follows pstep read Fits programs s' := by
  cases e with
  | ask f question =>
      obtain ⟨_, hprograms, hcalls, hreturned⟩ := step_ask h
      refine ⟨fun g => by rw [hprograms, hreturned]; exact hinv.taken g, fun g q a hanswered => ?_⟩
      rw [hcalls] at hanswered
      rw [hprograms]
      by_cases hg : g = f
      · rw [hg, Function.update_self] at hanswered
        cases hanswered
      · rw [Function.update_of_ne hg] at hanswered
        exact hinv.fits g q a hanswered
  | answer f answer =>
      obtain ⟨question, _, hprograms, hcalls, hreturned⟩ := step_answer h
      refine ⟨fun g => by rw [hprograms, hreturned]; exact hinv.taken g, fun g q a hanswered => ?_⟩
      rw [hcalls] at hanswered
      rw [hprograms]
      by_cases hg : g = f
      · rw [hg, Function.update_self] at hanswered
        obtain ⟨rfl, rfl⟩ := BlockingCall.answered.inj hanswered
        rw [hg]
        exact hok
      · rw [Function.update_of_ne hg] at hanswered
        exact hinv.fits g q a hanswered
  | ret f =>
      obtain ⟨question, answer, hanswered, hprograms, hcalls, hreturned⟩ := step_ret h
      refine ⟨fun g => ?_, fun g q a hg => ?_⟩
      · rw [hreturned, hprograms, Blocking.takenBy_concat, List.filterMap_append, run_append,
          hinv.taken g, Option.bind_some]
        by_cases hg : g = f
        · obtain ⟨d, hread, hstep⟩ := hagree _ _ (hinv.fits f question answer hanswered)
          rw [hg, if_pos rfl, Function.update_self, List.filterMap_cons_some hread, run_cons,
            hstep]
          rfl
        · rw [if_neg (Ne.symm hg), Function.update_of_ne hg]
          rfl
      · rw [hcalls] at hg
        rw [hprograms]
        by_cases heq : g = f
        · rw [heq, Function.update_self] at hg
          cases hg
        · rw [Function.update_of_ne heq] at hg ⊢
          exact hinv.fits g q a hg

/-- **A program follows its own answers.** -/
theorem follows_of_run (hagree : ∀ p a, Fits p a →
      ∃ d, read a = some d ∧ pstep p d = some (caller.resume p a))
    {programs : ι → σ} {es : List (Blocking.Event ι ρ α)} {s : Callers ι σ ρ α}
    (h : Along (step caller) (AnswersFit Fits) (init programs) es)
    (hrun : run (step caller) (init programs) es = some s) :
    Follows pstep read Fits programs s := by
  have hinit : Follows pstep read Fits programs (init programs : Callers ι σ ρ α) :=
    ⟨fun _ => rfl, fun _ _ _ hanswered => by cases hanswered⟩
  exact (h.throughout hinit fun _ _ _ hinv hok hstep => step_follows hagree hinv hok hstep).last
    hrun

end Follows

end Callers

end Hnet
