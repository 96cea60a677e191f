/-
# Which slots a placeholder is filled from

A placeholder ought to be filled from the slots of the fragment in whose text it stands, and what fills it
ought to be inserted as it is. Substitution that does so (`SlotMap.fillOnce`) does not look into what it has
inserted; expansion by it is `Expander.expandScoped`.

| content bound to a name | substitution |
| --- | --- |
| without placeholders | inserts it as it is (`SlotMap.closed_ofChildren_iff`) |
| with a placeholder | fills that too, from the other slots of the same include |

A fragment has its placeholders filled before it is expanded, so what its includes bind holds none. Only the
includes of the document itself can bind one; if they do not, expansion is scoped (`expand_eq_expandScoped`).
-/

import PageComposer.Proofs.Expansion.Tally
import PageComposer.Proofs.Expansion.Termination

namespace PageComposer

namespace Content

/-- Substitution meets no placeholder exactly where there is none. -/
theorem resolved_fillAll_eq_nil_iff (bound : String → Option Filled) {binding : Bool}
    {items : List Content} :
    (fillAll bound binding items).resolved = [] ↔ closed binding items = true := by
  induction items using list_induction generalizing binding with
  | nil => simp
  | text s rest ih => simpa using ih
  | node h cs rest ihc ih =>
    by_cases hk : (binding || !h.isYield) = true
    · rw [fillAll_kept bound hk, closed_node, hk, List.append_eq_nil_iff, ihc, ih]
      simp
    · obtain ⟨rfl, hy⟩ : binding = false ∧ h.isYield = true := by simpa using hk
      rw [fillAll_placeholder bound hy]
      simp [hy]

mutual

/-- The names that the placeholders of an item ask for; `binding` tells whether it is a direct child of an
include. -/
def askedItem (binding : Bool) : Content → List String
  | .text _ => []
  | .node h cs =>
    if binding || !h.isYield then asked h.isInclude cs
    else h.placeholder.name.toList ++ asked false cs

/-- The names that the placeholders of a content list ask for. -/
def asked (binding : Bool) : List Content → List String
  | [] => []
  | item :: rest => askedItem binding item ++ asked binding rest

end

@[simp] theorem asked_text (binding : Bool) (s : String) (rest : List Content) :
    asked binding (.text s :: rest) = asked binding rest := by
  simp [asked, askedItem]

theorem asked_kept {binding : Bool} {h : Head} (hk : (binding || !h.isYield) = true)
    (cs rest : List Content) :
    asked binding (.node h cs :: rest) = asked h.isInclude cs ++ asked binding rest := by
  rw [asked, askedItem, if_pos hk]

theorem asked_placeholder {h : Head} (hy : h.isYield = true) (cs rest : List Content) :
    asked false (.node h cs :: rest) =
      h.placeholder.name.toList ++ asked false cs ++ asked false rest := by
  rw [asked, askedItem, if_neg (by simp [hy])]

/-- Substitution depends on what is bound to the names asked for. -/
theorem fillAll_congr {bound bound' : String → Option Filled} {binding : Bool} {items : List Content}
    (hb : ∀ name ∈ asked binding items, bound name = bound' name) :
    fillAll bound binding items = fillAll bound' binding items := by
  induction items using list_induction generalizing binding with
  | nil => rfl
  | text s rest ih => rw [fillAll_text, fillAll_text, ih (by simpa using hb)]
  | node h cs rest ihc ih =>
    by_cases hk : (binding || !h.isYield) = true
    · rw [asked_kept hk, List.forall_mem_append] at hb
      rw [fillAll_kept bound hk, fillAll_kept bound' hk, ihc hb.1, ih hb.2]
    · obtain ⟨rfl, hy⟩ : binding = false ∧ h.isYield = true := by simpa using hk
      rw [asked_placeholder hy, List.forall_mem_append, List.forall_mem_append] at hb
      obtain ⟨⟨hname, hcs⟩, hrest⟩ := hb
      have hbound : h.placeholder.name.bind bound = h.placeholder.name.bind bound' := by
        cases hn : h.placeholder.name with
        | none => rfl
        | some name => exact hname name (by simp [hn])
      rw [fillAll_placeholder bound hy, fillAll_placeholder bound' hy, ihc hcs, ih hrest]
      simp only [standIn, hbound]

end Content

namespace SlotMap

/-- Substitution that inserts what is bound as it is. -/
def fillOnce (slots : SlotMap) (items : List Content) : Filled :=
  Content.fillAll (fun name => (slots.get? name).map fun content => ⟨Content.copyAll content, []⟩) false
    items

/-- Slots without placeholders are inserted as they are. -/
theorem fill_eq_fillOnce {slots : SlotMap} (hs : slots.Closed) (items : List Content) :
    slots.fill items = slots.fillOnce items := fill_of_closed hs items

/-- **Only what is asked for matters.**  Slots that hold the same without placeholders under the names that a
fragment asks for are substituted alike, whatever else they bind. -/
theorem fill_congr {slots slots' : SlotMap} {items : List Content}
    (hg : ∀ name ∈ Content.asked false items, slots.get? name = slots'.get? name ∧
      ∀ content, slots.get? name = some content → Content.closed false content = true) :
    slots.fill items = slots'.fill items := by
  rw [fill_eq, fill_eq]
  refine Content.fillAll_congr fun name hname => ?_
  obtain ⟨hget, hclosed⟩ := hg name hname
  rw [← hget]
  cases hc : slots.get? name with
  | none => rfl
  | some content => rw [Option.map_some, Option.map_some, fill_copy (hclosed _ hc), fill_copy (hclosed _ hc)]

/-- A fragment that is one placeholder. -/
def lonePlaceholder (name : String) : List Content :=
  [.node { tag := some "yield", attrs := [("name", .text name)] } []]

/-- No slot of an include has an empty name. -/
theorem name_ne_of_mem_ofChildren {children : List Content} {s : String × List Content}
    (hs : s ∈ ofChildren children) : s.1.isEmpty = false := by
  obtain ⟨item, _, hb⟩ := List.mem_filterMap.1 (mem_of_mem_ofChildren hs)
  cases item with
  | text t => cases hb
  | node h cs =>
    rw [binding?_node] at hb
    split at hb
    · obtain ⟨n, hn, rfl⟩ := Option.map_eq_some_iff.1 hb
      unfold Head.textAttr? at hn
      split at hn
      · split at hn
        · cases hn
        · rename_i he
          obtain rfl := Option.some.inj hn
          simpa using he
      · cases hn
    · cases hb

/-- **Only content without placeholders is inserted as it is.**  The slots of an include are inserted as they
are into every fragment exactly if none holds a placeholder. -/
theorem closed_ofChildren_iff (children : List Content) :
    (ofChildren children).Closed ↔
      ∀ items, (ofChildren children).fill items = (ofChildren children).fillOnce items := by
  refine ⟨fun hs items => fill_eq_fillOnce hs items, fun h s hs => ?_⟩
  have hget : (ofChildren children).get? s.1 = some s.2 :=
    (mem_iff_get? (nodup_names_ofChildren children) s).1 hs
  have hname : ({ tag := some "yield", attrs := [("name", .text s.1)] } : Head).placeholder.name =
      some s.1 := by
    simp [Head.placeholder, Head.textAttr?, Attrs.get?, name_ne_of_mem_ofChildren hs]
  -- the placeholder alone: substitution in the slot meets nothing more
  have hlone := congrArg Filled.resolved (h (lonePlaceholder s.1))
  rw [fill_eq, fillOnce, lonePlaceholder, Content.fillAll_placeholder _ rfl,
    Content.fillAll_placeholder _ rfl] at hlone
  simp only [Content.standIn, hname, Option.bind_some, hget, Option.map_some, Content.fillAll_nil,
    List.append_nil, List.cons.injEq, true_and] at hlone
  rw [fill_eq, Content.resolved_fillAll_eq_nil_iff, Content.closed_copyAll] at hlone
  exact hlone

end SlotMap

namespace Expander

variable {x : Expander} {w : FileTree}

/-- Expansion in which substitution inserts what is bound as it is. -/
def expandScoped (x : Expander) (w : FileTree) (stack : List Path) (run : Run) (items : List Content) :
    List Content × Run :=
  let announced := run.announce items
  Attempt.perform
    (attempt x w SlotMap.fillOnce stack fun path _hfile _hnew run items =>
      expandScoped x w (stack ++ [path]) run items)
    announced.2 announced.1
termination_by w.unvisited stack
decreasing_by
  exact FileTree.unvisited_lt _hfile _hnew

/-- **Expansion is scoped** if no include of the document binds a placeholder. -/
theorem expand_eq_expandScoped (stack : List Path) (run : Run) {items : List Content}
    (hb : Content.bindingsClosed items = true) :
    x.expand w stack run items = x.expandScoped w stack run items := by
  rw [expand_eq, expandScoped, run.announce_eq]
  refine Attempt.perform_congr (fun src slots run f hf => ?_) (fun src slots run hs => ?_) _
    (by simpa using hb)
  · exact (x.attempted w SlotMap.fill stack (x.descent w stack) src slots run).closed hf
  · refine attempt_congr fun path cs ha hread items => ⟨SlotMap.fill_eq_fillOnce hs items, ?_⟩
    intro hfile hnew run
    exact expand_eq_expandScoped (stack ++ [path]) run
      (Content.bindingsClosed_of_closed (slots.closed_fill items))
termination_by w.unvisited stack
decreasing_by exact FileTree.unvisited_lt hfile hnew

/-- **Placeholders are scoped, except in what the document itself binds.**

· If no include of a document binds a placeholder, processing it is scoped, and so is expanding it.

· In a fragment, expansion is always scoped: no include of one binds a placeholder when its turn comes.

· The slots of an include are inserted as they are into every fragment exactly if none holds a placeholder.

· Slots that hold the same, without placeholders, under the names that a fragment asks for are substituted
alike, whatever further names they bind. -/
theorem placeholders_scoped (x : Expander) (w : FileTree) :
    (∀ document markup : String,
      (∀ items, Markup.parse markup = .ok items → Content.bindingsClosed items = true) →
      x.process w document markup = processBy (x.expandScoped w []) document markup) ∧
    (∀ (stack : List Path) (run : Run) (items : List Content), Content.bindingsClosed items = true →
      x.expand w stack run items = x.expandScoped w stack run items) ∧
    (∀ (stack : List Path) (run : Run) (slots : SlotMap) (fragment : List Content),
      x.expand w stack run (slots.fill fragment).content =
        x.expandScoped w stack run (slots.fill fragment).content) ∧
    (∀ children : List Content, (SlotMap.ofChildren children).Closed ↔ ∀ fragment,
      (SlotMap.ofChildren children).fill fragment = (SlotMap.ofChildren children).fillOnce fragment) ∧
    ∀ (slots slots' : SlotMap) (fragment : List Content),
      (∀ name ∈ Content.asked false fragment, slots.get? name = slots'.get? name ∧
        ∀ content, slots.get? name = some content → Content.closed false content = true) →
      slots.fill fragment = slots'.fill fragment := by
  refine ⟨fun document markup hb => ?_, fun stack run items hb => expand_eq_expandScoped stack run hb,
    fun stack run slots fragment => ?_, SlotMap.closed_ofChildren_iff, fun _ _ _ => SlotMap.fill_congr⟩
  · unfold process processBy
    dsimp only
    split
    · rfl
    · rename_i items hp
      rw [expand_eq_expandScoped [] _ (hb items hp)]
  · exact expand_eq_expandScoped stack run
      (Content.bindingsClosed_of_closed (slots.closed_fill fragment))

/-- A fragment that asks for `a` alone. -/
def askingFiles : FileTree :=
  { FileTree.ofEntries [(["src"], .directory),
      (["src", "f"], .file ⟨"<yield name=\"a\"></yield>".toUTF8.toList, 0, 0⟩)] with fresh := 1 }

/-- A page that binds a placeholder to `a`, with further bindings behind it. -/
def bindingMarkup (further : String) : String :=
  "<include src=\"f\"><yield name=\"a\"><yield name=\"b\">own</yield></yield>" ++ further ++ "</include>"

/-- **A placeholder in bound content is filled from the slots of the include that binds it.**  The fragment
asks for `a` alone; but binding `b` beside it changes what the content of `a` becomes, and neither result has
that content as it is. -/
theorem bound_placeholder_filled :
    (sampleExpander.process askingFiles "<document>" (bindingMarkup "")).1 = some "own" ∧
      (sampleExpander.process askingFiles "<document>"
        (bindingMarkup "<yield name=\"b\">B</yield>")).1 = some "B" ∧
      (processBy (sampleExpander.expandScoped askingFiles []) "<document>"
        (bindingMarkup "<yield name=\"b\">B</yield>")).1 = some "<yield name=\"b\">own</yield>" := by
  decide +kernel

end Expander
end PageComposer
