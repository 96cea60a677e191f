/-
# What lenient reading does with a file

Lenient reading gives the value of the file or the default (`Answer`), unless there is a reason in `Escape`, of which it
makes a fault:

| reason | fault |
| --- | --- |
| a part of the path, or all of it, is too long | `unreachable` |
| the bytes are no UTF-8 | `unreadable` |
| the text or a node of it (`TextCause`) | `content` |

So it does fail, for a single byte or for a date that is none (`lenient_reading_fails`).  Nothing is said of a document
with a node in itself (`HoldsItself`), which has no finite value.
-/

import PageComposer.Proofs.Config.Faults
import PageComposer.Proofs.Yaml.Building
import PageComposer.Proofs.Yaml.Scalars

namespace PageComposer
namespace Yaml

open Markup (LongNumeral)

/-! ### The text -/

/-- What makes a fault of a text that is no fault of its notation. -/
inductive TextCause (cs : List Char) : Fault → Prop
  /-- A character code in it. -/
  | code {n : Nat} (escape : EscapedCode cs n) : TextCause cs (.codePoint n)
  /-- A number of its version. -/
  | version {f : Decimal.NumeralFault} (digits : LongNumeral cs f) : TextCause cs (.numeral f)
  /-- A scalar of the kind whose notation it has. -/
  | plain {root : Node} {text : String} {f : Fault} (document : document? cs = .ok (some root))
      (within : (Node.scalar (tagStart ++ kindOf text) text).Within root) (refused : Unmade text f) : TextCause cs f
  /-- A node that a tag makes something else than its notation. -/
  | tagged {root m : Node} {f : Fault} (document : document? cs = .ok (some root)) (within : m.Within root)
      (unlike : ∀ text : String, Unbroken text.toList → m ≠ .scalar (tagStart ++ kindOf text) text)
      (refused : m.Refused f) : TextCause cs f

/-- A node of the document stands in itself. -/
def HoldsItself (cs : List Char) : Prop := ∃ root, document? cs = .ok (some root) ∧ Node.cycle.Within root

/-- A tag of a kind is of that kind only. -/
theorem kind?_scalar (kind text : String) : (Node.scalar (tagStart ++ kind) text).kind? = some kind := by
  have hprefix : tagStart.toList.isPrefixOf (tagStart ++ kind).toList = true := by
    rw [String.toList_append, List.isPrefixOf_iff_prefix]
    exact List.prefix_append ..
  have hdrop : (tagStart ++ kind).toList.drop tagStart.length = kind.toList := by
    rw [String.toList_append, ← String.length_toList, List.drop_left]
  rw [Node.kind?, Node.tag, if_pos hprefix, hdrop, String.ofList_toList]

/-- A scalar of the kind whose notation it has is refused only for what plain scalars are refused for. -/
theorem unmade_of_refused {text : String} {f : Fault} (hend : Unbroken text.toList)
    (h : (Node.scalar (tagStart ++ kindOf text) text).Refused f) : Unmade text f := by
  obtain ⟨kind, text', hkind, htext, hf⟩ := h
  obtain rfl : text = text' := Except.ok.inj htext
  obtain rfl : kindOf text = kind := Option.some.inj ((kind?_scalar _ _).symm.trans hkind)
  exact unmade_of_buildScalar? hend hf

theorem textCause_of_read {cs : List Char} {f : Fault} (h : read cs = .error f) (hf : f.isSyntactic = false) :
    TextCause cs f ∨ HoldsItself cs := by
  have hunlike : ¬ f.isSyntactic = true := by
    rw [hf]
    exact Bool.false_ne_true
  obtain hblames | ⟨root, hroot, hcaused⟩ := cause_of_read h
  · cases hblames with
    | syntactic hs => exact absurd hs hunlike
    | code escape => exact .inl (.code escape)
    | version digits => exact .inl (.version digits)
  · cases hcaused with
    | syntactic hs => exact absurd hs hunlike
    | endless within => exact .inr ⟨root, hroot, within⟩
    | refused within scalar =>
      rename_i m
      by_cases hplain : ∃ text : String, Unbroken text.toList ∧ m = .scalar (tagStart ++ kindOf text) text
      · obtain ⟨text, hend, rfl⟩ := hplain
        exact .inl (.plain hroot within (unmade_of_refused hend scalar))
      · exact .inl (.tagged hroot within (fun text hend hm => hplain ⟨text, hend, hm⟩) scalar)

/-! ### The file -/

variable (w : FileTree) (p : Path)

/-- What a file holds as text. -/
def HoldsText (cs : List Char) : Prop :=
  ∃ file, w.openFile p = .ok file ∧ ∃ raw, Text.decode .utf8 file.data = .ok raw ∧ cs = Text.unixLines raw

/-- What lenient reading gives, and why. -/
inductive Answer (default : Value) : Value → Prop
  /-- The value of the file. -/
  | value {cs : List Char} {v : Value} (text : HoldsText w p cs) (content : read cs = .ok v) (some : v ≠ .null) :
      Answer default v
  /-- The default in the place of no value. -/
  | null {cs : List Char} (text : HoldsText w p cs) (content : read cs = .ok .null) : Answer default default
  /-- The default in the place of a text that is no YAML. -/
  | syntactic {cs : List Char} {f : Fault} (text : HoldsText w p cs) (content : read cs = .error f)
      (unlike : f.isSyntactic = true) : Answer default default
  /-- The default in the place of a file that is not there. -/
  | missing (status : w.status? p = .ok none) : Answer default default
  /-- The default in the place of something that cannot be opened. -/
  | unopened {why : Refusal} {path : String} (opened : w.openFile p = .error (.refused why path)) :
      Answer default default

/-- What lenient reading fails for. -/
inductive Escape : LoadFault → Prop
  /-- The path cannot be looked up. -/
  | lookup (long : w.IsTooLong p) : Escape (.unreachable (.refused .nameTooLong p.text))
  /-- The bytes are no UTF-8. -/
  | bytes {file : File} {f : Text.DecodeFault} (opened : w.openFile p = .ok file)
      (coded : Text.decode .utf8 file.data = .error f) : Escape (.unreadable (.decode (inPieces file.data f)))
  /-- The text makes no value, though it is YAML. -/
  | text {cs : List Char} {f : Fault} (text : HoldsText w p cs) (cause : TextCause cs f) : Escape (.content f)

variable {w p}

theorem holdsText_of_readPieces {cs : List Char} (h : readPieces w p = .ok cs) : HoldsText w p cs := by
  unfold readPieces at h
  split at h
  · cases h
  · rename_i file hfile
    split at h
    · rename_i raw hraw
      exact ⟨file, hfile, raw, hraw, (Except.ok.inj h).symm⟩
    · cases h

theorem escape_of_load {f : LoadFault} (h : load w p = .error f) (hf : f.isForgiven = false) :
    Escape w p f ∨ ∃ cs, HoldsText w p cs ∧ HoldsItself cs := by
  cases unusable_of_load h with
  | unreachable status =>
    obtain ⟨hlong, heq⟩ := FileTree.status?_eq_error.1 status
    rw [heq]
    exact .inl (.lookup hlong)
  | missing => cases hf
  | unopened => cases hf
  | undecoded pieces =>
    unfold readPieces at pieces
    split at pieces
    · cases pieces
    · rename_i file hfile
      split at pieces
      · cases pieces
      · rename_i g hg
        obtain rfl := ReadFault.decode.inj (Except.error.inj pieces)
        exact .inl (.bytes hfile hg)
  | content pieces text =>
    rename_i cs g
    have htext := holdsText_of_readPieces pieces
    obtain hcause | hself := textCause_of_read text hf
    · exact .inl (.text htext hcause)
    · exact .inr ⟨cs, htext, hself⟩

theorem answer_of_load {f : LoadFault} (default : Value) (h : load w p = .error f) (hf : f.isForgiven = true) :
    Answer w p default default := by
  cases unusable_of_load h with
  | unreachable => cases hf
  | missing status => exact .missing status
  | unopened opened => exact .unopened opened
  | undecoded => cases hf
  | content pieces text => exact .syntactic (holdsText_of_readPieces pieces) text hf

theorem answer_of_value {v : Value} (default : Value) (h : load w p = .ok v) :
    Answer w p default (orDefault default v) := by
  unfold load at h
  split at h
  · cases h
  · cases h
  · split at h
    · cases h
    · rename_i cs hcs
      have htext := holdsText_of_readPieces hcs
      split at h
      · rename_i v' hread
        obtain rfl := Except.ok.inj h
        by_cases hnull : v' = .null
        · rw [hnull] at hread ⊢
          exact .null htext hread
        · have hsame : orDefault default v' = v' := by
            cases v' with
            | null => exact absurd rfl hnull
            | _ => rfl
          rw [hsame]
          exact .value htext hread hnull
      · cases h

variable (w p)

/-- **Lenient reading gives the value of a file, or the default where there is none, unless there is a reason in
`Escape`, or a node in itself.** -/
theorem lenient_reading (default : Value) :
    (∃ v, loadOr w p default false = .ok v ∧ Answer w p default v) ∨
      (∃ f, loadOr w p default false = .error f ∧ Escape w p f) ∨ ∃ cs, HoldsText w p cs ∧ HoldsItself cs := by
  unfold loadOr
  cases hl : load w p with
  | ok v => exact .inl ⟨_, rfl, answer_of_value default hl⟩
  | error f =>
    cases hf : f.isForgiven with
    | true => exact .inl ⟨default, by simp [hf], answer_of_load default hl hf⟩
    | false =>
      obtain hescape | hself := escape_of_load hl hf
      · exact .inr (.inl ⟨f, by simp [hf], hescape⟩)
      · exact .inr (.inr hself)

/-- The fault of a result, if it is one. -/
def fault? {ε α : Type} : Except ε α → Option ε
  | .error e => some e
  | .ok _ => none

theorem eq_error_of_fault? {ε α : Type} {r : Except ε α} {e : ε} (h : fault? r = some e) : r = .error e := by
  cases r with
  | error e' => exact congrArg _ (Option.some.inj h)
  | ok a => cases h

/-- A file that is no UTF-8, and one with a date that is none. -/
def garbledFiles : FileTree := FileTree.ofEntries
  [(["a.yaml"], .file ⟨[0xFF], 0, 0⟩), (["b.yaml"], .file ⟨"2001-99-99\n".toUTF8.toList, 0, 0⟩)]

/-- **Lenient reading fails for one byte that is no UTF-8, and for a date that is none.** -/
theorem lenient_reading_fails :
    loadOr garbledFiles (Path.ofString "a.yaml") (.int 7) false =
        .error (.unreadable (.decode (.bytes "utf-8" [0xFF] 0 "invalid start byte"))) ∧
      loadOr garbledFiles (Path.ofString "b.yaml") (.int 7) false = .error (.content (.calendar .month)) := by
  constructor
  · exact eq_error_of_fault? (by decide +kernel)
  · exact eq_error_of_fault? (by decide +kernel)

end Yaml
end PageComposer
