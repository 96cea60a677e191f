/-
# What ends an expansion

A directive that is refused leaves an error, and the expansion goes on with the next. Only a fault ends an
expansion. A fault is that markup is rejected, or it has one of five causes (`Expander.Caused`):

| fault | cause |
| --- | --- |
| null character | a reference of a directive leads to a path that holds one, or the encoding holds one |
| unknown encoding | there is none of the name |
| no byte order | the encoding is UTF-16, and a file has no byte order mark |
| numeral | a text writes a character reference with more than 4300 digits |

No fault comes from a file that cannot be read or decoded otherwise: that is one of the refusals
(`Expander.refusal?`).
-/

import PageComposer.Proofs.Expansion.Accounting
import PageComposer.Proofs.Markup.Numerals

namespace PageComposer

namespace Text

/-- Whether bytes begin with a byte order mark of UTF-16. -/
def hasByteOrder (bs : List UInt8) : Bool :=
  [0xff, 0xfe].isPrefixOf bs || [0xfe, 0xff].isPrefixOf bs

end Text

namespace FragmentFault

/-- Whether markup was rejected for what it says. -/
def isRejection : FragmentFault → Bool
  | .markup (.unknownSection _) | .markup (.unnamedSection _) => true
  | _ => false

end FragmentFault

namespace Load

/-- The references of the directives that loads bring. -/
def brought (loads : List Load) : Multiset String :=
  (loads.map fun l => (Content.directives l.filled.content : Multiset String)).sum

theorem brought_append (ls ms : List Load) : brought (ls ++ ms) = brought ls + brought ms := by
  simp [brought]

end Load

namespace Expander

variable {x : Expander} {w : FileTree}

/-- The error about a directive in the fragments of `stack`, none if its fragment can be entered. -/
def refusal? (x : Expander) (w : FileTree) (stack : List Path) (src : String) : Option String :=
  match x.fragments.resolve w src with
  | .error _ => none
  | .ok path =>
    if path ∈ stack then
      some ("Circular include detected: " ++ " -> ".intercalate ((stack ++ [path]).map Path.text))
    else if x.maxDepth ≤ stack.length then
      some (s!"Include depth {stack.length + 1} exceeds max_depth={x.maxDepth}: " ++ path.text)
    else
      match x.fragments.readPath w path with
      | .error (.unreadable p reason) => some (FragmentFault.unreadable p reason).message
      | _ => none

/-- The causes of faults that are no rejections, for an expansion that has met directives of `references` and
read `texts`. -/
inductive Caused (x : Expander) (w : FileTree) (references : Multiset String) (texts : List String) :
    FragmentFault → Prop
  | reference {src : String} (hs : src ∈ references)
      (hn : Text.holds (x.fragments.root.join (Path.ofString src)).text '\x00' = true) :
      Caused x w references texts (.nullCharacter "embedded null byte")
  | encoding (hn : Text.holds x.fragments.encoding '\x00' = true) :
      Caused x w references texts (.nullCharacter "embedded null character")
  | unknown (he : Text.Encoding.ofName? x.fragments.encoding = none) :
      Caused x w references texts (.unknownEncoding x.fragments.encoding)
  | unmarked {path : Path} {file : File} (he : Text.Encoding.ofName? x.fragments.encoding = some .utf16)
      (hf : w.openFile path = .ok file) (hm : Text.hasByteOrder file.data = false) :
      Caused x w references texts .noByteOrder
  | numeral {text : String} {f : Decimal.NumeralFault} (ht : text ∈ texts)
      (hn : Markup.LongNumeral text.toList f) : Caused x w references texts (.markup (.numeral f))

/-- A fault that is a rejection or has one of the causes. -/
def Explained (x : Expander) (w : FileTree) (references : Multiset String) (texts : List String)
    (f : FragmentFault) : Prop :=
  f.isRejection = true ∨ Caused x w references texts f

theorem Explained.mono {references references' : Multiset String} {texts texts' : List String}
    {f : FragmentFault} (hr : references ⊆ references') (ht : texts ⊆ texts')
    (h : Explained x w references texts f) : Explained x w references' texts' f := by
  refine h.imp id fun hc => ?_
  cases hc with
  | reference hs hn => exact .reference (hr hs) hn
  | encoding hn => exact .encoding hn
  | unknown he => exact .unknown he
  | unmarked he hf hm => exact .unmarked he hf hm
  | numeral hmem hn => exact .numeral (ht hmem) hn

/-- The errors about the directives that loads bring. -/
def refusals (x : Expander) (w : FileTree) (loads : List Load) : Multiset String :=
  (loads.map fun l => (Content.directives l.filled.content : Multiset String).filterMap
    (x.refusal? w (l.stack ++ [l.path]))).sum

theorem refusals_append (ls ms : List Load) :
    x.refusals w (ls ++ ms) = x.refusals w ls + x.refusals w ms := by
  simp [refusals]

/-- A run that another goes on with, after directives of `sources` in the fragments of `stack`: what has
been loaded between them, the errors where it goes on, and what its fault is due to where it does not. -/
structure Recorded (x : Expander) (w : FileTree) (stack : List Path) (sources : Multiset String)
    (run : Run) (loads : List Load) (run' : Run) : Prop where
  loaded : run'.loads = loads ++ run.loads
  fault : run'.fault? = run.fault? ∨ ∃ f, run'.fault? = some f ∧
    Explained x w (sources + Load.brought loads) (loads.map Load.source) f
  goes : run'.isOver = false → run.isOver = false
  errors : run'.isOver = false → (run'.report.errors : Multiset String) =
    run.report.errors + sources.filterMap (x.refusal? w stack) + x.refusals w loads

namespace Recorded

variable {stack : List Path} {s t : Multiset String} {a b c : Run} {ls ms : List Load}

theorem of_like (hl : a.Like b) : Recorded x w stack 0 a [] b where
  loaded := hl.loads
  fault := .inl hl.fault
  goes := hl.extends.goes
  errors _ := by simp [hl.errors, refusals]

theorem trans (h₁ : Recorded x w stack s a ls b) (h₂ : Recorded x w stack t b ms c) :
    Recorded x w stack (s + t) a (ms ++ ls) c where
  loaded := by rw [h₂.loaded, h₁.loaded, List.append_assoc]
  fault := by
    rw [Load.brought_append, List.map_append]
    rcases h₂.fault with hc | ⟨f, hc, hf⟩
    · rw [hc]
      refine h₁.fault.imp id fun ⟨f, hb, hf⟩ => ⟨f, hb, hf.mono ?_ (List.subset_append_right _ _)⟩
      exact Multiset.subset_of_le (add_le_add (Multiset.le_add_right _ _) (Multiset.le_add_left _ _))
    · refine .inr ⟨f, hc, hf.mono ?_ (List.subset_append_left _ _)⟩
      exact Multiset.subset_of_le (add_le_add (Multiset.le_add_left _ _) (Multiset.le_add_right _ _))
  goes hc := h₁.goes (h₂.goes hc)
  errors hc := by
    rw [h₂.errors hc, h₁.errors (h₂.goes hc), Multiset.filterMap_add, refusals_append]
    ac_rfl

/-- Where an expansion has ended, further references may count. -/
theorem mono (h : Recorded x w stack s a ls b) (hs : s ≤ t) (ho : b.isOver = true) :
    Recorded x w stack t a ls b where
  loaded := h.loaded
  fault := h.fault.imp id fun ⟨f, hb, hf⟩ => ⟨f, hb, hf.mono
    (Multiset.subset_of_le (add_le_add hs le_rfl)) (List.Subset.refl _)⟩
  goes hb := by rw [ho] at hb; cases hb
  errors hb := by rw [ho] at hb; cases hb

/-- A fault before anything is loaded. -/
theorem abort {f : FragmentFault} (hf : Explained x w s [] f) :
    Recorded x w stack s a [] (a.abort f) where
  loaded := rfl
  fault := .inr ⟨f, rfl, hf.mono (Multiset.subset_of_le (Multiset.le_add_right _ _)) (List.Subset.refl _)⟩
  goes := nofun
  errors := nofun

/-- A refused directive is recorded as one error. -/
theorem fail {src message : String} (hr : x.refusal? w stack src = some message) :
    Recorded x w stack {src} a [] (a.fail message) where
  loaded := rfl
  fault := .inl rfl
  goes := id
  errors _ := by
    have hone : ({src} : Multiset String).filterMap (x.refusal? w stack) = {message} := by
      rw [← Multiset.coe_singleton, Multiset.filterMap_coe, List.filterMap_cons_some hr]
      rfl
    have hadd : (a.fail message).report.errors = a.report.errors ++ [message] := rfl
    rw [hone, hadd, ← Multiset.coe_add]
    simp [refusals]

/-- A directive whose fragment was loaded is recorded as what the fragment brings. -/
theorem enter {l : Load} {r : Run} (hr : x.refusal? w stack l.reference = none) (hs : l.stack = stack)
    (h : Recorded x w (stack ++ [l.path]) (Content.directives l.filled.content)
      ((a.load l).resolved l.filled.resolved) ls r) :
    Recorded x w stack {l.reference} a (ls ++ [l]) r where
  loaded := by
    have hl := h.loaded
    rw [(Run.like_resolved _ _).loads] at hl
    rw [hl, List.append_assoc]
    rfl
  fault := by
    have hf := h.fault
    rw [(Run.like_resolved _ _).fault] at hf
    refine hf.imp id fun ⟨f, hb, hf⟩ => ⟨f, hb, hf.mono ?_ ?_⟩
    · have hl : Load.brought [l] = (Content.directives l.filled.content : Multiset String) := by
        simp [Load.brought]
      rw [Load.brought_append, hl, add_comm (Load.brought ls)]
      exact Multiset.subset_of_le (Multiset.le_add_left _ _)
    · simp
  goes hb := (((a.extends_load l).trans (Run.like_resolved _ _).extends).goes (h.goes hb))
  errors hb := by
    have hone : ({l.reference} : Multiset String).filterMap (x.refusal? w stack) = 0 := by
      rw [← Multiset.coe_singleton, Multiset.filterMap_coe, List.filterMap_cons_none hr]
      rfl
    have hl : x.refusals w [l] = (Content.directives l.filled.content : Multiset String).filterMap
        (x.refusal? w (stack ++ [l.path])) := by
      simp [refusals, hs]
    have herr : ((a.load l).resolved l.filled.resolved).report.errors = a.report.errors :=
      (Run.like_resolved _ _).errors
    rw [h.errors hb, hone, refusals_append, hl, herr]
    ac_rfl

end Recorded

theorem refusal?_of_admits {stack : List Path} {src : String} {path : Path}
    (ha : x.Admits w stack src path) : x.refusal? w stack src =
      match x.fragments.readPath w path with
      | .error (.unreadable p reason) => some (FragmentFault.unreadable p reason).message
      | _ => none := by
  simp [refusal?, ha.resolves, ha.fresh, Int.not_le.2 ha.shallow]

end Expander
end PageComposer
