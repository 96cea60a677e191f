/-
# What ends the making of values

| fault | at |
| --- | --- |
| `content` | a node that is not what its tag says |
| `endless` | a node in itself |
| another | a node of a kind whose text makes no value of the kind |

The node stands within the one that the value is made of (`Node.Within`), also where it is merged into a mapping.
-/

import PageComposer.Proofs.Yaml.Nodes
import PageComposer.Yaml.Build

namespace PageComposer
namespace Yaml

open Markup (Gives)

/-! ### Nodes in nodes -/

/-- A node is another one, or stands in it. -/
inductive Node.Within (m : Node) : Node → Prop
  | self : Within m m
  | item {t : String} {items : List Node} {n : Node} (mem : n ∈ items) (within : Within m n) :
      Within m (.sequence t items)
  | key {t : String} {entries : List (Node × Node)} {e : Node × Node} (mem : e ∈ entries) (within : Within m e.1) :
      Within m (.mapping t entries)
  | value {t : String} {entries : List (Node × Node)} {e : Node × Node} (mem : e ∈ entries) (within : Within m e.2) :
      Within m (.mapping t entries)

/-- The text that a node stands for makes no value of its kind. -/
def Node.Refused (m : Node) (f : Fault) : Prop :=
  ∃ kind text, m.kind? = some kind ∧ m.scalarText m.size = .ok text ∧ m.scalarOf kind text = some (.error f)

/-- What ends the making of the value of a node. -/
inductive Caused (n : Node) : Fault → Prop
  | syntactic {f : Fault} (unlike : f.isSyntactic = true) : Caused n f
  | endless (within : Node.cycle.Within n) : Caused n .endless
  | refused {m : Node} {f : Fault} (within : m.Within n) (scalar : m.Refused f) : Caused n f

theorem Node.Within.trans {a b c : Node} (hab : a.Within b) (hbc : b.Within c) : a.Within c := by
  induction hbc with
  | self => exact hab
  | item mem _ ih => exact .item mem ih
  | key mem _ ih => exact .key mem ih
  | value mem _ ih => exact .value mem ih

theorem caused_content (n : Node) : Caused n .content := .syntactic rfl

theorem Caused.mono {m n : Node} {f : Fault} (h : Caused m f) (hm : m.Within n) : Caused n f := by
  cases h with
  | syntactic hf => exact .syntactic hf
  | endless hc => exact .endless (hc.trans hm)
  | refused hw hs => exact .refused (hw.trans hm) hs

namespace Node

/-- A fault in how a node is put together. -/
def Flawed (n : Node) (f : Fault) : Prop := f = .content ∨ f = .endless ∧ Node.cycle.Within n

theorem Flawed.caused {n : Node} {f : Fault} (h : n.Flawed f) : Caused n f := by
  obtain rfl | ⟨rfl, hc⟩ := h
  · exact caused_content n
  · exact .endless hc

theorem Flawed.mono {m n : Node} {f : Fault} (h : m.Flawed f) (hm : m.Within n) : n.Flawed f :=
  h.imp id fun hc => ⟨hc.1, hc.2.trans hm⟩

theorem flawed_of_scalarText {fuel : Nat} {n : Node} {f : Fault} (h : n.scalarText fuel = .error f) : n.Flawed f := by
  induction fuel generalizing n with
  | zero =>
    obtain rfl := Except.error.inj h
    exact .inl rfl
  | succ fuel ih =>
    cases n with
    | scalar => cases h
    | sequence =>
      obtain rfl := Except.error.inj h
      exact .inl rfl
    | cycle =>
      obtain rfl := Except.error.inj h
      exact .inr ⟨rfl, .self⟩
    | mapping t entries =>
      simp only [scalarText] at h
      split at h
      · rename_i k v hfind
        exact (ih h).mono (.value (List.mem_of_find?_eq_some hfind) .self)
      · obtain rfl := Except.error.inj h
        exact .inl rfl

/-! ### Merged entries -/

/-- An entry as it is built comes from within a node. -/
def Brings (n : Node) (e : Node × Node) : Prop := (∃ k : Node, k.Within n ∧ e.1 = k.asText) ∧ e.2.Within n

theorem Brings.mono {m n : Node} {e : Node × Node} (h : m.Brings e) (hm : m.Within n) : n.Brings e := by
  obtain ⟨⟨k, hk, he⟩, hv⟩ := h
  exact ⟨⟨k, hk.trans hm, he⟩, hv.trans hm⟩

/-- Entries come from within a node, or there is a flaw in it. -/
def Flattens (n : Node) : Except Fault (List (Node × Node)) → Prop := Gives n.Flawed fun es => ∀ e ∈ es, n.Brings e

end Node

theorem Gives.mapM_all {ε α β : Type} {Q : ε → Prop} {P : β → Prop} {read : α → Except ε β} {as : List α}
    (h : ∀ a ∈ as, Gives Q P (read a)) : Gives Q (fun bs => ∀ b ∈ bs, P b) (as.mapM read) := by
  induction as with
  | nil => exact List.forall_mem_nil _
  | cons a as ih =>
    rw [List.forall_mem_cons] at h
    rw [List.mapM_cons]
    exact Gives.bind h.1 fun b hb => Gives.bind (ih h.2) fun bs hbs => List.forall_mem_cons.2 ⟨hb, hbs⟩

namespace Node

variable {flat : List (Node × Node) → Except Fault (List (Node × Node))}
  (hflat : ∀ t entries, Flattens (.mapping t entries) (flat entries))
include hflat

theorem flattens_entriesOf (n : Node) : n.Flattens (n.entriesOf flat) := by
  cases n with
  | mapping t entries => exact hflat t entries
  | cycle => exact .inr ⟨rfl, .self⟩
  | scalar => exact .inl rfl
  | sequence => exact .inl rfl

theorem flattens_merged (n : Node) : n.Flattens (n.merged flat) := by
  cases n with
  | sequence t items =>
    refine Gives.bind (Gives.mapM_all (P := fun es => ∀ e ∈ es, (Node.sequence t items).Brings e) fun m hm => ?_) ?_
    · have hin : m.Within (.sequence t items) := .item hm .self
      exact Gives.mono (flattens_entriesOf hflat m) (fun _ hf => hf.mono hin) fun es hes e he => (hes e he).mono hin
    · intro ess hess e he
      obtain ⟨es, hes, he⟩ := List.mem_flatten.1 he
      exact hess es (List.mem_reverse.1 hes) e he
  | mapping t entries => exact flattens_entriesOf hflat (.mapping t entries)
  | cycle => exact flattens_entriesOf hflat .cycle
  | scalar t s => exact flattens_entriesOf hflat (.scalar t s)

omit hflat in
theorem flattens_flatEntries (fuel : Nat) (t : String) (entries : List (Node × Node)) :
    Flattens (.mapping t entries) (flatEntries fuel entries) := by
  induction fuel generalizing t entries with
  | zero => exact .inl rfl
  | succ fuel ih =>
    refine Gives.bind (Gives.mapM_all (P := fun es => ∀ e ∈ es, (Node.mapping t entries).Brings e) fun d hd => ?_) ?_
    · have hin : d.2.Within (.mapping t entries) := .value ((List.mem_filter.1 hd).1) .self
      exact Gives.mono (flattens_merged ih d.2) (fun _ hf => hf.mono hin) fun es hes e he => (hes e he).mono hin
    · intro ess hess e he
      rcases List.mem_append.1 he with he | he
      · obtain ⟨es, hes, he⟩ := List.mem_flatten.1 he
        exact hess es hes e he
      · obtain ⟨d, hd, rfl⟩ := List.mem_map.1 he
        have hd := (List.mem_filter.1 hd).1
        exact ⟨⟨d.1, .key hd .self, rfl⟩, .value hd .self⟩

end Node

/-! ### Keys as texts -/

theorem Node.within_withTag {m k : Node} {t : String} (h : m.Within (k.withTag t)) :
    m = k.withTag t ∨ m.Within k := by
  cases k with
  | scalar | cycle =>
    cases h
    exact .inl rfl
  | sequence =>
    cases h with
    | self => exact .inl rfl
    | item mem h => exact .inr (.item mem h)
  | mapping =>
    cases h with
    | self => exact .inl rfl
    | key mem h => exact .inr (.key mem h)
    | value mem h => exact .inr (.value mem h)

/-- A text is a value of its kind. -/
theorem Node.not_refused_text (k : Node) (f : Fault) : ¬ (k.withTag (tagStart ++ "str")).Refused f := by
  rintro ⟨kind, text, hkind, -, hf⟩
  have hstr : ∀ n : Node, n.tag = tagStart ++ "str" → n.kind? = some "str" := by
    intro n hn
    rw [kind?, hn]
    decide
  cases k with
  | cycle => cases hkind
  | scalar | sequence | mapping =>
    obtain rfl := Option.some.inj ((hstr _ rfl).symm.trans hkind)
    cases hf

/-- A key of the kind `value` is built as a text, and no fault comes from that. -/
theorem Caused.of_asText {k : Node} {f : Fault} (h : Caused k.asText f) : Caused k f := by
  unfold Node.asText at h
  split at h
  · cases h with
    | syntactic hf => exact .syntactic hf
    | endless hc =>
      obtain hc | hc := Node.within_withTag hc
      · cases k with
        | cycle => exact .endless .self
        | scalar | sequence | mapping => cases hc
      · exact .endless hc
    | refused hm hf =>
      obtain rfl | hm := Node.within_withTag hm
      · exact absurd hf (k.not_refused_text _)
      · exact .refused hm hf
  · exact h

/-! ### Values -/

/-- If there is a fault, it is such that `P`. -/
def Blamed (P : Fault → Prop) (x : Option (Nat × Fault)) : Prop := ∀ l f, x = some (l, f) → P f

section
variable {P : Fault → Prop}

theorem blamed_none : Blamed P none := nofun

theorem blamed_some {l : Nat} {f : Fault} (h : P f) : Blamed P (some (l, f)) := by
  intro l' f' he
  obtain ⟨rfl, rfl⟩ := Prod.mk.inj (Option.some.inj he)
  exact h

theorem Blamed.mono {Q : Fault → Prop} {x : Option (Nat × Fault)} (h : Blamed P x) (hPQ : ∀ f, P f → Q f) :
    Blamed Q x := fun l f he => hPQ f (h l f he)

theorem Blamed.first {a b : Option (Nat × Fault)} (ha : Blamed P a) (hb : Blamed P b) : Blamed P (firstFault a b) := by
  unfold firstFault
  split
  · exact hb
  · exact ha
  · split
    · exact hb
    · exact ha

theorem Blamed.asKey {b : Built} (h : Blamed P b.fault?) (hcontent : P .content) (level : Nat) :
    Blamed P (asKey level b).fault? := by
  unfold Yaml.asKey
  split
  · split
    · exact h
    · split
      · exact h
      · exact blamed_some hcontent
  · split
    · exact h
    · exact blamed_some hcontent

end

/-- What the makers of values fail for with `fuel`. -/
structure BuildersBlame (fuel : Nat) : Prop where
  node : ∀ level n, Blamed (Caused n) (build level fuel n).fault?
  all : ∀ level ns (P : Fault → Prop), P .content → (∀ n ∈ ns, ∀ f, Caused n f → P f) →
    Blamed P (buildAll level fuel ns).2
  mapping : ∀ level n, Blamed (Caused n) (buildMapping level fuel n).2
  entries : ∀ level acc es (P : Fault → Prop), P .content →
    (∀ e ∈ es, ∀ f, Caused e.1 f ∨ Caused e.2 f → P f) → Blamed P (buildEntries level fuel acc es).2
  pairs : ∀ level ns (P : Fault → Prop), P .content → (∀ n ∈ ns, ∀ f, Caused n f → P f) →
    Blamed P (buildPairs level fuel ns).2

namespace BuildersBlame

theorem zero : BuildersBlame 0 where
  node _ n := by
    rw [build]
    exact blamed_some (caused_content n)
  all _ _ _ hc _ := by
    rw [buildAll]
    exact blamed_some hc
  mapping _ n := by
    rw [buildMapping]
    exact blamed_some (caused_content n)
  entries _ _ _ _ hc _ := by
    rw [buildEntries]
    exact blamed_some hc
  pairs _ _ _ hc _ := by
    rw [buildPairs]
    exact blamed_some hc

variable {fuel : Nat} (h : BuildersBlame fuel)
include h

theorem node_succ (level : Nat) (n : Node) : Blamed (Caused n) (build level (fuel + 1) n).fault? := by
  have hitems : ∀ t items, n = .sequence t items → ∀ m ∈ items, ∀ f, Caused m f → Caused n f := by
    rintro t items rfl m hm f hf
    exact hf.mono (.item hm .self)
  unfold build
  split
  · cases n with
    | cycle => exact blamed_some (.endless .self)
    | scalar | sequence | mapping => exact blamed_some (caused_content _)
  · rename_i kind hkind
    split
    · split
      · exact h.all (level + 1) _ _ (caused_content _) (hitems _ _ rfl)
      · exact blamed_some (caused_content _)
    · exact h.mapping (level + 1) n
    · exact h.mapping (level + 1) n
    · split
      · exact h.pairs (level + 1) _ _ (caused_content _) (hitems _ _ rfl)
      · exact blamed_some (caused_content _)
    · split
      · exact h.pairs (level + 1) _ _ (caused_content _) (hitems _ _ rfl)
      · exact blamed_some (caused_content _)
    · split
      · exact blamed_some (caused_content _)
      · split
        · rename_i f hf
          exact blamed_some (Node.flawed_of_scalarText hf).caused
        · rename_i text htext
          split
          · exact blamed_none
          · rename_i f hf
            exact blamed_some (.refused .self ⟨_, text, hkind, htext, hf⟩)
          · exact blamed_some (caused_content _)

theorem all_succ (level : Nat) (ns : List Node) (P : Fault → Prop) (hc : P .content)
    (hns : ∀ n ∈ ns, ∀ f, Caused n f → P f) : Blamed P (buildAll level (fuel + 1) ns).2 := by
  cases ns with
  | nil =>
    rw [buildAll]
    exact blamed_none
  | cons n rest =>
    rw [List.forall_mem_cons] at hns
    rw [buildAll]
    exact ((h.node level n).mono hns.1).first (h.all level rest P hc hns.2)

theorem mapping_succ (level : Nat) (n : Node) : Blamed (Caused n) (buildMapping level (fuel + 1) n).2 := by
  unfold buildMapping
  split
  · rename_i t entries
    have hflat := Node.flattens_flatEntries (Node.mapping t entries).size t entries
    split
    · rename_i es hes
      rw [hes] at hflat
      refine h.entries _ _ es _ (caused_content _) fun e he f hf => ?_
      obtain ⟨⟨k, hk, hkey⟩, hv⟩ := hflat e he
      rcases hf with hf | hf
      · rw [hkey] at hf
        exact hf.of_asText.mono hk
      · exact hf.mono hv
    · rename_i f hf
      rw [hf] at hflat
      exact blamed_some (Node.Flawed.caused hflat)
  · exact blamed_some (caused_content n)

theorem entries_succ (level : Nat) (acc : Entries) (es : List (Node × Node)) (P : Fault → Prop) (hc : P .content)
    (hes : ∀ e ∈ es, ∀ f, Caused e.1 f ∨ Caused e.2 f → P f) :
    Blamed P (buildEntries level (fuel + 1) acc es).2 := by
  cases es with
  | nil =>
    rw [buildEntries]
    exact blamed_none
  | cons e rest =>
    rw [List.forall_mem_cons] at hes
    rw [buildEntries]
    have hkey := (h.node level e.1).mono fun f hf => hes.1 f (.inl hf)
    have hvalue := (h.node level e.2).mono fun f hf => hes.1 f (.inr hf)
    exact ((hkey.asKey hc level).first hvalue).first (h.entries level _ rest P hc hes.2)

theorem pairs_succ (level : Nat) (ns : List Node) (P : Fault → Prop) (hc : P .content)
    (hns : ∀ n ∈ ns, ∀ f, Caused n f → P f) : Blamed P (buildPairs level (fuel + 1) ns).2 := by
  cases ns with
  | nil =>
    rw [buildPairs]
    exact blamed_none
  | cons n rest =>
    rw [List.forall_mem_cons] at hns
    unfold buildPairs
    split
    · rename_i t k v
      have hkey := (h.node level k).mono fun f hf => hns.1 f (hf.mono (.key (e := (k, v)) (List.mem_singleton_self _) .self))
      have hvalue := (h.node level v).mono fun f hf =>
        hns.1 f (hf.mono (.value (e := (k, v)) (List.mem_singleton_self _) .self))
      exact (hkey.first hvalue).first (h.pairs level rest P hc hns.2)
    · exact blamed_some (hns.1 _ (.endless .self))
    · exact blamed_some hc

theorem succ : BuildersBlame (fuel + 1) where
  node := h.node_succ
  all := h.all_succ
  mapping := h.mapping_succ
  entries := h.entries_succ
  pairs := h.pairs_succ

omit h in
theorem of_fuel (fuel : Nat) : BuildersBlame fuel := by
  induction fuel with
  | zero => exact zero
  | succ fuel ih => exact ih.succ

end BuildersBlame

/-- **A text makes no value for its notation, for a code or a number that stands in it, or for a node of its
document.** -/
theorem cause_of_read {cs : List Char} {f : Fault} (h : read cs = .error f) :
    Blames cs f ∨ ∃ root, document? cs = .ok (some root) ∧ Caused root f := by
  unfold read at h
  split at h
  · rename_i g hg
    obtain rfl := Except.error.inj h
    exact .inl (blames_of_document? hg)
  · cases h
  · rename_i root hroot
    dsimp only at h
    split at h
    · rename_i l g hg
      obtain rfl := Except.error.inj h
      exact .inr ⟨root, hroot, (BuildersBlame.of_fuel _).node 0 root l _ hg⟩
    · cases h

end Yaml
end PageComposer
