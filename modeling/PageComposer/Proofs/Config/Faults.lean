/-
# Why settings cannot be loaded

Loading ends for what the settings say (`Fault.isAboutSettings`), or it has one of three causes (`LoadCause`).

| fault | cause |
| --- | --- |
| `access` | a place of the project file cannot be looked up |
| `file` | the project file cannot be read, or a scalar in it makes no value |
| `variable` | the text of a variable is a numeral with too many digits |

Kept settings change nothing about that (`Cache.get_eq_error`): what could not be loaded is not kept.
-/

import PageComposer.Proofs.Config.Transparency
import PageComposer.Proofs.Files.Nulls

namespace PageComposer

namespace Yaml

/-- What a file gives no value for. -/
inductive Unusable (w : FileTree) (p : Path) : LoadFault → Prop
  | unreachable {why : Refusal} {path : String} (status : w.status? p = .error (.refused why path)) :
      Unusable w p (.unreachable (.refused why path))
  | missing (status : w.status? p = .ok none) : Unusable w p (.missing p)
  | unopened {why : Refusal} {path : String} (opened : w.openFile p = .error (.refused why path)) :
      Unusable w p (.unreadable (.file (.refused why path)))
  | undecoded {f : Text.DecodeFault} (pieces : readPieces w p = .error (.decode f)) :
      Unusable w p (.unreadable (.decode f))
  | content {cs : List Char} {f : Fault} (pieces : readPieces w p = .ok cs) (text : read cs = .error f) :
      Unusable w p (.content f)

/-- What is there is not read because of how it is opened or of its bytes. -/
theorem unusable_of_readPieces {w : FileTree} {p : Path} {e : Entry} {f : ReadFault} (hthere : w.status p = .ok e)
    (h : readPieces w p = .error f) : Unusable w p (.unreadable f) := by
  have hpieces := h
  unfold readPieces at h
  cases ho : w.openFile p with
  | error g =>
    rw [ho] at h
    obtain rfl := Except.error.inj h
    cases g with
    | refused why path => exact .unopened ho
    | nullCharacter => exact absurd (FileTree.holdsNull_of_openFile ho) (FileTree.not_holdsNull_of_status hthere)
  | ok file =>
    rw [ho] at h
    dsimp only at h
    split at h
    · cases h
    · obtain rfl := Except.error.inj h
      exact .undecoded hpieces

theorem unusable_of_load {w : FileTree} {p : Path} {f : LoadFault} (h : load w p = .error f) :
    Unusable w p f := by
  unfold load at h
  cases hs : w.status? p with
  | error g =>
    rw [FileTree.hasEntry, hs] at h
    obtain rfl := Except.error.inj h
    obtain rfl := (FileTree.status?_eq_error.1 hs).2
    exact .unreachable hs
  | ok e =>
    rw [FileTree.hasEntry, hs] at h
    cases e with
    | none =>
      obtain rfl := Except.error.inj h
      exact .missing hs
    | some e =>
      have hthere := FileTree.status?_eq_some.1 hs
      simp only [Except.map, Option.isSome_some] at h
      cases hr : readPieces w p with
      | error g =>
        rw [hr] at h
        obtain rfl := Except.error.inj h
        exact unusable_of_readPieces hthere hr
      | ok cs =>
        rw [hr] at h
        dsimp only at h
        split at h
        · cases h
        · rename_i g hg
          obtain rfl := Except.error.inj h
          exact .content hr hg

end Yaml

namespace Config

/-- What settings cannot be loaded for, other than what they say. -/
inductive LoadCause (w : FileTree) (vars : Variables) (root : Path) : Fault → Prop
  | lookup {p : Path} {f : FileFault} (place : p ∈ projectFilePlaces root) (status : w.status? p = .error f) :
      LoadCause w vars root (.access f)
  | file {p : Path} {f : Yaml.LoadFault} (place : p ∈ projectFilePlaces root) (load : Yaml.Unusable w p f)
      (scalar : ∀ g, f = .content g → g.isSyntactic = false) : LoadCause w vars root (.file f)
  | numeral {v : String × String} {f : Decimal.NumeralFault} (setting : v ∈ settingVariables vars)
      (read : readSetting v.2 = .error f) : LoadCause w vars root (.variable (.numeral f))

variable {w : FileTree} {root : Path}

/-- Variables end in a numeral only where one of them is refused as a number. -/
theorem readSetting_of_applyVariables {es : Entries} {vars : Variables} {f : Decimal.NumeralFault}
    (h : (applyVariables es vars).fault? = some (.numeral f)) : ∃ v ∈ vars, readSetting v.2 = .error f := by
  induction vars generalizing es with
  | nil => cases h
  | cons v rest ih =>
    obtain ⟨name, text⟩ := v
    have hrest {es : Entries} (h : (applyVariables es rest).fault? = some (.numeral f)) :
        ∃ v ∈ (name, text) :: rest, readSetting v.2 = .error f :=
      (ih h).imp fun v hv => ⟨List.mem_cons_of_mem _ hv.1, hv.2⟩
    unfold applyVariables at h
    dsimp only at h
    split at h
    · exact hrest h
    · split at h
      · cases h
      · split at h
        · rename_i g hg
          obtain rfl := VariableFault.numeral.inj (Option.some.inj h)
          exact ⟨_, List.mem_cons_self .., hg⟩
        · exact hrest h

end Config
end PageComposer
