/-
# An expansion loses no node and doubles none

What an expansion is given it leaves in the document or releases (`Expander.places_expand`): a marked node has
as many places in the two together as it had before. The nodes of fragments are new and the slots put into
fragments are copies, so nothing with a mark comes in.

| content of an include | places afterwards |
| --- | --- |
| its slots | with the children, where they are put back |
| its other children | with the children |
| the children as a whole | in the document; with what is released if the include is resolved |
-/

import PageComposer.Proofs.Document.Places
import PageComposer.Proofs.Expansion.Halted

namespace PageComposer

variable {a : Nat}

/-! ### Runs -/

namespace Run

@[simp] theorem released_skip (run : Run) (sources : List String) : (run.skip sources).released = run.released :=
  skip_keeps Run.released (fun _ _ _ => rfl) run sources

@[simp] theorem released_resolved (run : Run) (names : List (Option String)) :
    (run.resolved names).released = run.released :=
  remarks_keep Run.released (fun _ _ _ => rfl) .slots _ run names

@[simp] theorem released_announce (run : Run) (items : List Content) :
    (run.announce items).2.released = run.released :=
  announce_keeps Run.released (fun _ _ => rfl) run items

end Run

/-! ### The children of an include -/

namespace SlotMap

/-- The number of places of a node in the content of slots. -/
def places (a : Nat) (slots : SlotMap) : Nat := (slots.map fun s => Content.places a s.2).sum

/-- The number of places of a node among the children of an include, apart from the content of its slots. -/
def otherPlaces (a : Nat) : List Content → Nat
  | [] => 0
  | item :: rest => (if counts item rest then Content.places a [item.withChildren []] else Content.places a [item]) +
      otherPlaces a rest

@[simp] theorem places_nil : places a [] = 0 := rfl

@[simp] theorem places_cons (s : String × List Content) (rest : SlotMap) :
    places a (s :: rest) = Content.places a s.2 + places a rest := by
  simp [places]

theorem places_perm {slots slots' : SlotMap} (hp : slots.Perm slots') : slots.places a = slots'.places a :=
  (hp.map _).sum_eq

theorem otherPlaces_of_loser {item : Content} {rest : List Content} (hc : counts item rest = false) :
    otherPlaces a (item :: rest) = Content.places a [item] + otherPlaces a rest := by
  rw [otherPlaces, hc, if_neg Bool.false_ne_true]

theorem otherPlaces_of_winner {h : Head} {cs rest : List Content} (hc : counts (.node h cs) rest = true) :
    otherPlaces a (.node h cs :: rest) = (if h.mark = some a then 1 else 0) + otherPlaces a rest := by
  rw [otherPlaces, if_pos hc, Content.withChildren, Content.places_node]
  rfl

/-- **A node among the children stands in a slot or elsewhere.** -/
theorem places_ofChildren (children : List Content) :
    Content.places a children = (ofChildren children).places a + otherPlaces a children := by
  induction children using children_induction with
  | nil => rfl
  | loser item rest hc ih =>
    rw [Content.places_cons, ih, places_perm (ofChildren_perm_of_loser hc), otherPlaces_of_loser hc]
    omega
  | winner h cs rest name hb hlast ih =>
    rw [Content.places_cons, ih, places_perm (ofChildren_perm_of_winner hb hlast), places_cons,
      otherPlaces_of_winner (counts_of_winner hb hlast), Content.places_node, Content.places_nil]
    dsimp only
    omega

theorem otherPlaces_putBack (slots : SlotMap) (children : List Content) :
    otherPlaces a (slots.putBack children) = otherPlaces a children := by
  induction children using children_induction with
  | nil => rfl
  | loser item rest hc ih =>
    rw [putBack_of_loser slots hc, otherPlaces_of_loser hc,
      otherPlaces_of_loser ((counts_putBack slots item rest).trans hc), ih]
  | winner h cs rest name hb hlast ih =>
    have hcounts : counts (.node h ((slots.get? name).getD cs)) (slots.putBack rest) = true :=
      counts_of_winner (binding?_with hb _) ((any_binds_putBack slots rest name).trans hlast)
    rw [putBack_of_winner slots hb hlast, otherPlaces_of_winner (counts_of_winner hb hlast),
      otherPlaces_of_winner hcounts, ih]

/-- Where slots are put back, a node stands in one of them or elsewhere. -/
theorem places_putBack {slots : SlotMap} {children : List Content}
    (hn : slots.names = (ofChildren children).names) :
    Content.places a (slots.putBack children) = slots.places a + otherPlaces a children := by
  rw [places_ofChildren, ofChildren_putBack hn, otherPlaces_putBack]

end SlotMap

/-! ### A walk -/

namespace Outcome

/-- The number of places of a node in the fragment that an outcome brings. -/
def places (a : Nat) : Outcome → Nat
  | .resolved fragment => Content.places a fragment
  | .failed | .aborted => 0

end Outcome

namespace Attempt

variable {A : Attempt}

/-- What a walk owes: the node has the places that it had, in what the walk leaves and what it has released;
and nothing is taken from what was released before. -/
def Owes (a before after : Nat) (run run' : Run) : Prop :=
  after + Content.places a run'.released = before + Content.places a run.released ∧
    Content.places a run.released ≤ Content.places a run'.released

theorem Owes.refl (before : Nat) (run : Run) : Owes a before before run run := ⟨rfl, Nat.le_refl _⟩

/-- What nothing was owed for may be dropped. -/
theorem Owes.dropped {after : Nat} {run run' : Run} (h : Owes a 0 after run run') : Owes a 0 0 run run' := by
  unfold Owes at h ⊢
  omega

/-- Attempts after which a marked node has the places that it had. -/
def Conserves (a : Nat) (A : Attempt) : Prop :=
  ∀ src slots run, Owes a 0 ((A src slots run).1.places a) run (A src slots run).2

theorem places_performOthers {slots : SlotMap} {children : List Content}
    (hn : slots.names = (SlotMap.ofChildren children).names) (run : Run) :
    Content.places a (performOthers A slots run children).1 =
      slots.places a + SlotMap.otherPlaces a (performOthers A slots run children).1 := by
  rw [SlotMap.places_ofChildren, SlotMap.ofChildren_performOthers A run hn]

/-- A child that is no slot is performed. -/
theorem otherPlaces_loser {slots : SlotMap} {run : Run} {item : Content} {rest : List Content}
    (hc : SlotMap.counts item rest = false)
    (hitem : Owes a (Content.places a [item]) (Content.places a [(performItem A run item).1]) run
      (performItem A run item).2)
    (hrest : Owes a (SlotMap.otherPlaces a rest)
      (SlotMap.otherPlaces a (performOthers A slots (performItem A run item).2 rest).1) (performItem A run item).2
      (performOthers A slots (performItem A run item).2 rest).2) :
    Owes a (SlotMap.otherPlaces a (item :: rest))
      (SlotMap.otherPlaces a
        ((performItem A run item).1 :: (performOthers A slots (performItem A run item).2 rest).1)) run
      (performOthers A slots (performItem A run item).2 rest).2 := by
  unfold Owes at hitem hrest ⊢
  rw [SlotMap.otherPlaces_of_loser hc,
    SlotMap.otherPlaces_of_loser ((SlotMap.counts_performOthers A slots run _ item rest).trans hc)]
  omega

/-- A slot keeps its head. -/
theorem otherPlaces_winner {slots : SlotMap} {run : Run} {h : Head} {cs rest : List Content} {name : String}
    (hb : SlotMap.binding? (.node h cs) = some (name, cs)) (hlast : rest.any (SlotMap.binds name) = false)
    (hrest : Owes a (SlotMap.otherPlaces a rest)
      (SlotMap.otherPlaces a (performOthers A slots (run.skip (Content.directives cs)) rest).1)
      (run.skip (Content.directives cs)) (performOthers A slots (run.skip (Content.directives cs)) rest).2) :
    Owes a (SlotMap.otherPlaces a (.node h cs :: rest))
      (SlotMap.otherPlaces a (.node h ((slots.get? name).getD cs) ::
        (performOthers A slots (run.skip (Content.directives cs)) rest).1)) run
      (performOthers A slots (run.skip (Content.directives cs)) rest).2 := by
  have hcounts : SlotMap.counts (.node h ((slots.get? name).getD cs))
      (performOthers A slots (run.skip (Content.directives cs)) rest).1 = true :=
    (SlotMap.counts_congr (SlotMap.map_fst_binding? h _ cs)
      (SlotMap.filterMap_fst_performOthers A slots _ rest)).trans (SlotMap.counts_of_winner hb hlast)
  unfold Owes at hrest ⊢
  rw [Run.released_skip] at hrest
  rw [SlotMap.otherPlaces_of_winner (SlotMap.counts_of_winner hb hlast), SlotMap.otherPlaces_of_winner hcounts]
  omega

/-- A directive whose attempt was completed: what its slots and the attempt owe goes with its other children. -/
theorem Owes.directive {cs : List Content} {slots : SlotMap} {run mid after : Run} {fragment : Nat}
    (hs : performSlots A run (SlotMap.ofChildren cs) = (slots, mid))
    (hslots : Owes a ((SlotMap.ofChildren cs).places a) (slots.places a) run mid)
    (hattempt : Owes a 0 fragment mid after)
    (hothers : Owes a (SlotMap.otherPlaces a cs) (SlotMap.otherPlaces a (performOthers A slots after cs).1) after
      (performOthers A slots after cs).2) :
    Owes a (Content.places a cs) (Content.places a (performOthers A slots after cs).1 + fragment) run
      (performOthers A slots after cs).2 := by
  have hnames : slots.names = (SlotMap.ofChildren cs).names := by
    have h := names_performSlots (A := A) run (SlotMap.ofChildren cs)
    rwa [hs] at h
  have hafter := places_performOthers (a := a) (A := A) hnames after
  have hcs := SlotMap.places_ofChildren (a := a) cs
  unfold Owes at hslots hattempt hothers ⊢
  omega

/-- **A walk keeps the places of every node.** -/
theorem Conserves.all (hA : A.Conserves a) :
    (∀ run item, Owes a (Content.places a [item]) (Content.places a [(performItem A run item).1]) run
      (performItem A run item).2) ∧
    (∀ slots run children, Owes a (SlotMap.otherPlaces a children)
      (SlotMap.otherPlaces a (performOthers A slots run children).1) run (performOthers A slots run children).2) ∧
    (∀ run slots, Owes a (slots.places a) ((performSlots A run slots).1.places a) run (performSlots A run slots).2) ∧
    ∀ run items, Owes a (Content.places a items) (Content.places a (perform A run items).1) run
      (perform A run items).2 := by
  have attempt : ∀ {src slots mid o after}, A src slots mid = (o, after) →
      Owes a 0 (o.places a) mid after := by
    intro src slots mid o after ha
    have hstep := hA src slots mid
    rwa [ha] at hstep
  refine walk_induction A
    (fun run item r => Owes a (Content.places a [item]) (Content.places a [r.1]) run r.2)
    (fun _ run children r => Owes a (SlotMap.otherPlaces a children) (SlotMap.otherPlaces a r.1) run r.2)
    (fun run slots r => Owes a (slots.places a) (r.1.places a) run r.2)
    (fun run items r => Owes a (Content.places a items) (Content.places a r.1) run r.2)
    ?text ?kept ?aborted ?failed ?resolved ?childless ?loser ?winner ?unbound ?slot ?nil ?cons
  case text => exact fun run _ => .refl _ run
  case kept =>
    intro run h cs _ ih
    unfold Owes at ih ⊢
    rw [Content.places_node, Content.places_node]
    dsimp only
    omega
  case aborted =>
    intro run h cs src slots mid after _ hs ha ihs
    have hnames : slots.names = (SlotMap.ofChildren cs).names := by
      have h := names_performSlots (A := A) run (SlotMap.ofChildren cs)
      rwa [hs] at h
    have hback := SlotMap.places_putBack (a := a) hnames
    have hcs := SlotMap.places_ofChildren (a := a) cs
    have hstep := attempt ha
    unfold Owes at ihs hstep ⊢
    simp only [Content.places_node, Content.places_nil, Outcome.places] at ihs hstep ⊢
    omega
  case failed =>
    intro run h cs src slots mid after _ hs ha ihs iho
    have hwhole := Owes.directive hs ihs (attempt ha) iho
    unfold Owes at hwhole ⊢
    simp only [Content.places_node, Content.places_nil, Outcome.places] at hwhole ⊢
    rw [show h.settle.mark = h.mark from rfl]
    omega
  case resolved =>
    intro run h cs src slots mid f after _ hs ha ihs iho
    have hwhole := Owes.directive hs ihs (attempt ha) iho
    unfold Owes at hwhole ⊢
    simp only [Content.places_node, Content.places_nil, Outcome.places, Run.release,
      Content.places_append] at hwhole ⊢
    rw [show h.resolved.mark = h.mark from rfl]
    omega
  case childless => exact fun _ run => .refl _ run
  case loser => exact fun _ _ _ _ hc ihi ih => otherPlaces_loser hc ihi ih
  case winner => exact fun _ _ _ _ _ _ hb hlast ih => otherPlaces_winner hb hlast ih
  case unbound => exact fun run => .refl _ run
  case slot =>
    intro run name content rest ihc ih
    unfold Owes at ihc ih ⊢
    simp only [SlotMap.places_cons] at ih ⊢
    omega
  case nil => exact fun run => .refl _ run
  case cons =>
    intro run item rest ihi ih
    unfold Owes at ihi ih ⊢
    rw [Content.places_cons, Content.places_cons item rest]
    dsimp only
    omega

end Attempt

namespace Expander

variable {x : Expander} {w : FileTree}

/-- **An expansion keeps the places of every node**, in the document that it leaves and in what it has
released. -/
theorem owes_expand (stack : List Path) (run : Run) (items : List Content) :
    Attempt.Owes a (Content.places a items) (Content.places a (x.expand w stack run items).1) run
      (x.expand w stack run items).2 := by
  -- a fragment holds new nodes and copies, before its own expansion and so after it
  have hA : (x.attempt w SlotMap.fill stack (x.descent w stack)).Conserves a := by
    intro src slots run
    have h := x.attempted w SlotMap.fill stack (x.descent w stack) src slots run
    revert h
    generalize x.attempt w SlotMap.fill stack (x.descent w stack) src slots run = r
    obtain ⟨o, run'⟩ := r
    have hentered : ∀ {path : Path} {cs : List Char} {items : List Content}, path ∈ w.filePaths →
        stack.contains path = false →
        Markup.parse (Load.source ⟨stack, src, path, slots, String.ofList cs⟩) = .ok items →
        let r := x.expand w (stack ++ [path])
          ((run.load ⟨stack, src, path, slots, String.ofList cs⟩).resolved (slots.fill items).resolved)
          (slots.fill items).content
        Attempt.Owes a 0 (Content.places a r.1) run r.2 := by
      intro path cs items hfile hnew hp
      have hfilled : Content.places a (slots.fill items).content = 0 :=
        Nat.eq_zero_of_le_zero ((Content.places_fill_le slots items).trans_eq (Markup.fresh_parse hp).places)
      have hin := owes_expand (stack ++ [path])
        ((run.load ⟨stack, src, path, slots, String.ofList cs⟩).resolved (slots.fill items).resolved)
        (slots.fill items).content
      unfold Attempt.Owes at hin ⊢
      rw [hfilled, Run.released_resolved] at hin
      exact hin
    rintro (_ | _ | _ | _ | _ | _ | _ | ⟨ha, hread, hp, hfile, hnew, rfl, ho⟩ |
      ⟨ha, hread, hp, hfile, hnew, rfl, ho⟩)
    case broken => exact (hentered hfile hnew hp).dropped
    case entered => exact hentered hfile hnew hp
    all_goals exact ⟨rfl, Nat.le_refl _⟩
  have hwalk := hA.all.2.2.2 (run.announce items).2 (Content.announced items)
  unfold Attempt.Owes at hwalk ⊢
  rw [Content.places_announced, Run.released_announce] at hwalk
  rw [expand_eq]
  exact hwalk
termination_by w.unvisited stack
decreasing_by exact FileTree.unvisited_lt hfile hnew

end Expander
end PageComposer
