/-
# Actions that fail, and actions that are quiet

A chain of actions fails where its first one fails, or where that returns and the rest fails
(`Action.fails_bind`).  Most actions print at most lines of the log, on the error stream, whether they return or
fail (`Action.QuietAt`): what they leave has passed them by (`Passed`).

| action | fails with |
| --- | --- |
| `pure`, `get`, `set`, `modify` | nothing |
| `throw f` | `f` |
| `settled r` | the fault of the settings in `r` |
| `changed (w, fault)` | the fault of the files, if there is one |
-/

import PageComposer.Proofs.CommandLine.Returns

namespace PageComposer

namespace Logging

/-- Records as they are told on the console. -/
def lines (stamp : String) (rs : List Record) : String :=
  String.join (rs.map fun r => stamp ++ r.line ++ "\n")

theorem lines_append (stamp : String) (rs ss : List Record) :
    lines stamp (rs ++ ss) = lines stamp rs ++ lines stamp ss := by
  rw [lines, List.map_append, String.join_append]
  rfl

@[simp] theorem lines_nil (stamp : String) : lines stamp [] = "" := rfl

end Logging

namespace CommandLine

/-- `w` is left where `work` was found, by what has printed nothing but lines of the log. -/
structure Passed (work w : Work) : Prop where
  out : w.printed.out = work.printed.out
  err : ∃ rs, w.printed.err = work.printed.err ++ Logging.lines work.logger.stamp rs
  stamp : w.logger.stamp = work.logger.stamp
  around : w.around = work.around

theorem Passed.refl (work : Work) : Passed work work := ⟨rfl, ⟨[], by simp⟩, rfl, rfl⟩

theorem Passed.trans {u v w : Work} (h₁ : Passed u v) (h₂ : Passed v w) : Passed u w where
  out := h₂.out.trans h₁.out
  err := by
    obtain ⟨rs, hrs⟩ := h₁.err
    obtain ⟨ss, hss⟩ := h₂.err
    exact ⟨rs ++ ss, by rw [hss, hrs, h₁.stamp, Logging.lines_append, String.append_assoc]⟩
  stamp := h₂.stamp.trans h₁.stamp
  around := h₂.around.trans h₁.around

namespace Action

variable {α β : Type} {work work' : Work}

/-! ### Failing -/

/-- An action fails with `f` and leaves `work'` where it finds `work`. -/
def Fails (action : Action α) (work : Work) (f : Fault) (work' : Work) : Prop :=
  action.run.run work = (.error f, work')

/-- An action returns or fails. -/
theorem returns_or_fails (action : Action α) (work : Work) :
    (∃ a work', Returns action work a work') ∨ ∃ f work', Fails action work f work' := by
  rcases h : action.run.run work with ⟨f | a, work'⟩
  · exact .inr ⟨f, work', h⟩
  · exact .inl ⟨a, work', h⟩

/-- **A chain fails where its first action fails, or where that returns and the rest fails.** -/
theorem fails_bind {action : Action α} {next : α → Action β} {f : Fault} :
    Fails (action >>= next) work f work' ↔
      Fails action work f work' ∨
        ∃ a between, Returns action work a between ∧ Fails (next a) between f work' := by
  unfold Fails Returns
  rw [ExceptT.run_bind, StateT.run_bind]
  rcases action.run.run work with ⟨g | a, between⟩
  · constructor
    · intro h
      cases h
      exact .inl rfl
    · rintro (h | ⟨a, between', h, -⟩)
      · cases h
        rfl
      · cases h
  · constructor
    · exact fun h => .inr ⟨a, between, rfl, h⟩
    · rintro (h | ⟨a', between', h, hnext⟩)
      · cases h
      · cases h
        exact hnext

/-- An action that prints nothing but lines of the log where it finds `work`. -/
def QuietAt (action : Action α) (work : Work) : Prop := Passed work (action.run.run work).2

theorem QuietAt.of_returns {action : Action α} {a : α} (h : QuietAt action work)
    (hr : Returns action work a work') : Passed work work' := by
  unfold QuietAt at h
  rwa [hr] at h

theorem QuietAt.of_fails {action : Action α} {f : Fault} (h : QuietAt action work)
    (hf : Fails action work f work') : Passed work work' := by
  unfold QuietAt at h
  rwa [hf] at h

/-- **A chain of quiet actions is quiet.** -/
theorem QuietAt.bind {action : Action α} {next : α → Action β} (h : QuietAt action work)
    (hnext : ∀ a between, Returns action work a between → QuietAt (next a) between) :
    QuietAt (action >>= next) work := by
  obtain ⟨b, work', hr⟩ | ⟨f, work', hf⟩ := returns_or_fails (action >>= next) work
  · obtain ⟨a, between, ha, hb⟩ := returns_bind.1 hr
    rw [QuietAt, hr]
    exact (h.of_returns ha).trans ((hnext a between ha).of_returns hb)
  · rw [QuietAt, hf]
    obtain ha | ⟨a, between, ha, hb⟩ := fails_bind.1 hf
    · exact h.of_fails ha
    · exact (h.of_returns ha).trans ((hnext a between ha).of_fails hb)

end Action
end CommandLine
end PageComposer
