/-
# Actions that return

What a command does is a chain of actions. A chain returns just where each action returns, with the work
that it leaves handed to the next (`Action.returns_bind`).

| action | returns | leaves |
| --- | --- | --- |
| `pure a` | `a` | the work as it is |
| `get` | the work | the work as it is |
| `set`, `modify` | nothing | the new work |
| `throw` | never | |
-/

import PageComposer.CommandLine.Program

namespace PageComposer
namespace CommandLine
namespace Action

variable {α β : Type} {work work' : Work}

/-- An action returns `a` and leaves `work'` where it finds `work`. -/
def Returns (action : Action α) (work : Work) (a : α) (work' : Work) : Prop :=
  action.run.run work = (.ok a, work')

/-- **A chain returns where both actions return.** -/
theorem returns_bind {action : Action α} {next : α → Action β} {b : β} :
    Returns (action >>= next) work b work' ↔
      ∃ a between, Returns action work a between ∧ Returns (next a) between b work' := by
  unfold Returns
  rw [ExceptT.run_bind, StateT.run_bind]
  rcases action.run.run work with ⟨_ | a, between⟩
  · constructor
    · intro h
      cases h
    · rintro ⟨a, between', h, _⟩
      cases h
  · constructor
    · exact fun h => ⟨a, between, rfl, h⟩
    · rintro ⟨a', between', h, hnext⟩
      cases h
      exact hnext

theorem returns_pure {a b : α} : Returns (pure a) work b work' ↔ a = b ∧ work = work' := by
  constructor
  · intro h
    cases h
    exact ⟨rfl, rfl⟩
  · rintro ⟨rfl, rfl⟩
    rfl

theorem returns_get {here : Work} : Returns get work here work' ↔ work = here ∧ work = work' := by
  constructor
  · intro h
    cases h
    exact ⟨rfl, rfl⟩
  · rintro ⟨rfl, rfl⟩
    rfl

theorem returns_set {w : Work} {u : PUnit} : Returns (set w) work u work' ↔ w = work' := by
  constructor
  · intro h
    cases h
    rfl
  · rintro rfl
    rfl

theorem returns_modify {f : Work → Work} {u : Unit} :
    Returns (modify f) work u work' ↔ f work = work' := by
  constructor
  · intro h
    cases h
    rfl
  · rintro rfl
    rfl

theorem not_returns_throw {f : Fault} {a : α} : ¬Returns (throw f) work a work' := by
  intro h
  cases h

/-- What is printed leaves the files alone. -/
theorem tree_of_returns_printJson {r : Except Json.KeyFault Printed} {u : Unit}
    (h : Returns (printJson r) work u work') : work'.tree = work.tree := by
  cases r with
  | error f => exact absurd h not_returns_throw
  | ok p =>
    obtain rfl := returns_modify.1 h
    rfl

/-- An exit code other than 1 is that of the action itself. -/
theorem returns_of_reporting {a : Arguments} {code : String} {reported : Fault → Bool}
    {action : Action Nat} {n : Nat} (h : Returns (reporting a code reported action) work n work')
    (hn : n ≠ 1) : Returns action work n work' := by
  unfold Returns reporting at *
  rw [ExceptT.run_tryCatch, StateT.run_bind] at h
  rcases hr : action.run.run work with ⟨f | m, between⟩
  · -- a fault is reported with code 1, or thrown again
    rw [hr] at h
    change Returns (if reported f = true then _ else _) between n work' at h
    split at h
    · obtain ⟨_, _, _, h⟩ := returns_bind.1 h
      exact absurd (returns_pure.1 h).1.symm hn
    · exact absurd h not_returns_throw
  · rw [hr] at h
    exact h

end Action
end CommandLine
end PageComposer
