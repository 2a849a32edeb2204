import Hnet.Lts
import Mathlib.Logic.Function.Basic

/-!
# Blocking calls

What a fiber that makes a blocking call may rely on. It asks, it is answered once and from outside,
and it goes on with that answer. Nothing is said about who answers and how the answer gets to the
fiber, so a scheduler with a completion queue and a thread that sleeps in the kernel are both
implementations.
-/

namespace Hnet

/-- Where a caller stands. -/
inductive BlockingCall (ρ α : Type) where
  | idle
  | asked (question : ρ)
  | answered (question : ρ) (answer : α)
  deriving DecidableEq, Repr

/-- The answer that has been given and not been taken home yet. -/
def BlockingCall.toList {ρ α : Type} : BlockingCall ρ α → List α
  | .answered _ answer => [answer]
  | .idle | .asked _ => []

/-- The same caller, when the answers are read as something else. -/
def BlockingCall.map {ρ α β : Type} (g : α → β) : BlockingCall ρ α → BlockingCall ρ β
  | .idle => .idle
  | .asked question => .asked question
  | .answered question answer => .answered question (g answer)

structure Blocking (ι ρ α : Type) where
  calls : ι → BlockingCall ρ α
  returned : List (ι × α)

namespace Blocking

variable {ι ρ α : Type}

def init : Blocking ι ρ α where
  calls := fun _ => .idle
  returned := []

inductive Event (ι ρ α : Type) where
  | ask (f : ι) (question : ρ)
  | answer (f : ι) (answer : α)
  | ret (f : ι)
  deriving DecidableEq, Repr

def step [DecidableEq ι] (s : Blocking ι ρ α) : Event ι ρ α → Option (Blocking ι ρ α)
  | .ask f question =>
      match s.calls f with
      | .idle => some { s with calls := Function.update s.calls f (.asked question) }
      | _ => none
  | .answer f answer =>
      match s.calls f with
      | .asked question =>
          some { s with calls := Function.update s.calls f (.answered question answer) }
      | _ => none
  | .ret f =>
      match s.calls f with
      | .answered _ answer =>
          some
            { calls := Function.update s.calls f .idle, returned := s.returned ++ [(f, answer)] }
      | _ => none

/-! ### What a step can do -/

variable [DecidableEq ι] {s s' : Blocking ι ρ α} {f : ι}

theorem step_ask_of_idle (question : ρ) (h : s.calls f = .idle) :
    s.step (.ask f question)
      = some { s with calls := Function.update s.calls f (.asked question) } := by
  simp only [step, h]

theorem step_answer_of_asked {question : ρ} (answer : α) (h : s.calls f = .asked question) :
    s.step (.answer f answer)
      = some { s with calls := Function.update s.calls f (.answered question answer) } := by
  simp only [step, h]

theorem step_ret_of_answered {question : ρ} {answer : α}
    (h : s.calls f = .answered question answer) :
    s.step (.ret f) = some
      { calls := Function.update s.calls f .idle, returned := s.returned ++ [(f, answer)] } := by
  simp only [step, h]

theorem step_ask {question : ρ} (h : s.step (.ask f question) = some s') :
    s.calls f = .idle ∧
      s' = { s with calls := Function.update s.calls f (.asked question) } := by
  simp only [step] at h
  split at h
  · rename_i hidle
    exact ⟨hidle, (Option.some.inj h).symm⟩
  · cases h

theorem step_answer {answer : α} (h : s.step (.answer f answer) = some s') :
    ∃ question, s.calls f = .asked question ∧
      s' = { s with calls := Function.update s.calls f (.answered question answer) } := by
  simp only [step] at h
  split at h
  · rename_i question hasked
    exact ⟨question, hasked, (Option.some.inj h).symm⟩
  · cases h

theorem step_ret (h : s.step (.ret f) = some s') :
    ∃ question answer, s.calls f = .answered question answer ∧
      s' = { calls := Function.update s.calls f .idle
             returned := s.returned ++ [(f, answer)] } := by
  simp only [step] at h
  split at h
  · rename_i question answer hanswered
    exact ⟨question, answer, hanswered, (Option.some.inj h).symm⟩
  · cases h

/-! ### Answers come home in order -/

/-- The answers a caller has been given. -/
def Event.answerTo (f : ι) : Event ι ρ α → Option α
  | .answer g a => if g = f then some a else none
  | .ask _ _ | .ret _ => none

/-- The answers a caller has taken home. -/
def takenBy (f : ι) (returned : List (ι × α)) : List α :=
  returned.filterMap fun r => if r.1 = f then some r.2 else none

theorem takenBy_concat (f g : ι) (returned : List (ι × α)) (answer : α) :
    takenBy f (returned ++ [(g, answer)])
      = takenBy f returned ++ if g = f then [answer] else [] := by
  rw [takenBy, List.filterMap_append]
  by_cases heq : g = f
  · simp [takenBy, heq]
  · simp [takenBy, heq]

/-- What a caller has taken home and what waits for it. -/
def given (s : Blocking ι ρ α) (f : ι) : List α := takenBy f s.returned ++ (s.calls f).toList

theorem step_given {e : Event ι ρ α} (h : s.step e = some s') (f : ι) :
    s'.given f = s.given f ++ (e.answerTo f).toList := by
  cases e with
  | ask g question =>
      obtain ⟨hidle, rfl⟩ := step_ask h
      by_cases heq : f = g
      · subst heq
        simp [given, Event.answerTo, hidle, BlockingCall.toList]
      · simp [given, Event.answerTo, heq]
  | answer g answer =>
      obtain ⟨question, hasked, rfl⟩ := step_answer h
      by_cases heq : f = g
      · subst heq
        simp [given, Event.answerTo, hasked, BlockingCall.toList]
      · simp [given, Event.answerTo, heq, Ne.symm heq]
  | ret g =>
      obtain ⟨question, answer, hanswered, rfl⟩ := step_ret h
      by_cases heq : f = g
      · subst heq
        simp [given, Event.answerTo, hanswered, BlockingCall.toList, takenBy_concat]
      · simp [given, Event.answerTo, heq, Ne.symm heq, takenBy_concat]

/-- **Every answer is taken home once, and in order.** Only the last one may be waiting. -/
theorem run_given {es : List (Event ι ρ α)} (hrun : Lts.run step s es = some s') (f : ι) :
    s'.given f = s.given f ++ es.filterMap (Event.answerTo f) := by
  induction es generalizing s with
  | nil =>
      obtain rfl := Option.some.inj hrun
      exact (List.append_nil _).symm
  | cons e es ih =>
      obtain ⟨middle, hstep, hrest⟩ := Option.bind_eq_some_iff.mp hrun
      rw [ih hrest, step_given hstep f, List.append_assoc]
      cases hanswer : e.answerTo f with
      | none => rw [List.filterMap_cons_none hanswer]; rfl
      | some answer => rw [List.filterMap_cons_some hanswer]; rfl

end Blocking

end Hnet
