/-
# Which layer a setting comes from

Settings lie in layers (`Config.layered`): those of the project over the bundled ones, and over both the values
that variables assign to key paths (`Config.assignment?`), one after the other in the order of the names of the
variables.

| a key path | leads to |
| --- | --- |
| of a variable, and apart from the paths of all later ones | the value of that variable (`reach?_layered_of_last`) |
| apart from the paths of all variables | what it leads to without variables (`reach?_layered_of_apart`) |

The order makes the longer of two paths come later, as a name comes before those that it begins
(`settingName_lt_of_pieces`).  This needs that what the two names share is spelled alike (`OneCase`), as it is in
small letters and in the capitals of ASCII.  Beyond ASCII two capitals can have one small letter.
-/

import Mathlib.Data.String.Basic
import PageComposer.Config.Project
import PageComposer.Proofs.Config.Paths

namespace PageComposer
namespace Config

open Entries (setPath texts Apart)
open Value (reach?)

/-! ### Names of settings -/

/-- What the name of a variable says after the start that it shares with all settings. -/
def settingName (name : String) : List Char := name.toList.drop variableStart.length

/-- The pieces of the name of a variable. -/
def pieces (name : String) : List (List Char) := splitPairs (settingName name)

theorem splitPairs_ne_nil (cs : List Char) : splitPairs cs ≠ [] := by
  fun_cases splitPairs cs <;> simp_all

/-- The pieces of a text with pairs of underscores between them are the text. -/
theorem intercalate_splitPairs (cs : List Char) : ['_', '_'].intercalate (splitPairs cs) = cs := by
  fun_induction splitPairs cs with
  | case1 => rfl
  | case2 rest ih => rw [List.intercalate_cons_of_ne_nil (splitPairs_ne_nil rest), ih]; rfl
  | case3 c rest _ h => exact absurd h (splitPairs_ne_nil rest)
  | case4 c rest _ piece more h ih =>
    rw [h] at ih
    rw [← ih]
    cases more with
    | nil => rw [List.intercalate_singleton, List.intercalate_singleton]
    | cons next more => rw [List.intercalate_cons_cons, List.intercalate_cons_cons]; rfl

/-- Joining more pieces goes on after a separator. -/
theorem intercalate_append {α : Type} (sep : List α) {ps qs : List (List α)} (hp : ps ≠ []) (hq : qs ≠ []) :
    sep.intercalate (ps ++ qs) = sep.intercalate ps ++ (sep ++ sep.intercalate qs) := by
  induction ps with
  | nil => exact absurd rfl hp
  | cons p ps ih =>
    cases ps with
    | nil =>
      rw [List.singleton_append, List.intercalate_cons_of_ne_nil hq, List.intercalate_singleton,
        List.append_assoc]
    | cons next ps =>
      have := ih (List.cons_ne_nil _ _)
      rw [List.cons_append, List.cons_append, List.intercalate_cons_cons, List.intercalate_cons_cons,
        ← List.cons_append, this]
      simp only [List.append_assoc]

/-- **A setting comes before those whose pieces go on from its own.** -/
theorem settingName_lt_of_pieces {a b : String} (h : pieces a <+: pieces b) (hne : pieces a ≠ pieces b) :
    settingName a < settingName b := by
  obtain ⟨more, hmore⟩ := h
  have hmore_ne : more ≠ [] := fun hnil => hne (by rw [← hmore, hnil, List.append_nil])
  have hb : settingName b = settingName a ++ (['_', '_'] ++ ['_', '_'].intercalate more) := by
    rw [← intercalate_splitPairs (settingName b), ← intercalate_splitPairs (settingName a)]
    rw [← pieces, ← pieces, ← hmore]
    exact intercalate_append _ (splitPairs_ne_nil _) hmore_ne
  have hlt : settingName a ++ [] < settingName b := hb ▸ List.append_left_lt (List.nil_lt_cons ..)
  rwa [List.append_nil] at hlt

/-! ### What variables assign -/

/-- The key path that a variable sets, and the value that it sets it to. -/
def assignment? (v : String × String) : Option (List String × Value) :=
  match keyPath? (String.ofList (settingName v.1)), readSetting v.2 with
  | some path, .ok value => some (path, value)
  | _, _ => none

/-- A variable that can be applied: no piece of its name is empty and its text can be read.  One whose name is
the mere start sets nothing. -/
def Usable (v : String × String) : Prop := settingName v.1 = [] ∨ (assignment? v).isSome

instance (v : String × String) : Decidable (Usable v) := inferInstanceAs (Decidable (_ ∨ _))

/-- Settings after an assignment, if there is one. -/
def assign (es : Entries) (v : String × String) : Entries :=
  match assignment? v with
  | some (path, value) => setPath es value path
  | none => es

theorem assign_of_some {es : Entries} {v : String × String} {path : List String} {value : Value}
    (h : assignment? v = some (path, value)) : assign es v = setPath es value path := by
  rw [assign, h]

theorem assign_of_none {es : Entries} {v : String × String} (h : assignment? v = none) : assign es v = es := by
  rw [assign, h]

theorem assignment?_eq_some {v : String × String} {path : List String} {value : Value} :
    assignment? v = some (path, value) ↔
      keyPath? (String.ofList (settingName v.1)) = some path ∧ readSetting v.2 = .ok value := by
  rw [assignment?]
  split <;> simp_all

/-- The path of an assignment is made of the pieces of the name, in small letters. -/
theorem path_of_assignment? {v : String × String} {path : List String} {value : Value}
    (h : assignment? v = some (path, value)) :
    path = (pieces v.1).map fun p => String.ofList (Text.lowered p) := by
  have := (assignment?_eq_some.1 h).1
  rw [keyPath?] at this
  split at this
  · cases this
  · rw [String.toList_ofList] at this
    exact (Option.some.inj this).symm

theorem path_ne_nil {v : String × String} {path : List String} {value : Value}
    (h : assignment? v = some (path, value)) : path ≠ [] := by
  rw [path_of_assignment? h]
  exact fun hnil => splitPairs_ne_nil _ (List.map_eq_nil_iff.1 hnil)

/-- A variable whose name is the mere start assigns nothing. -/
theorem assignment?_of_nil {v : String × String} (h : settingName v.1 = []) : assignment? v = none := by
  rw [assignment?, h]
  rfl

/-- **Variables that can be applied are all applied, in order.** -/
theorem applyVariables_eq_foldl (es : Entries) {vars : Variables} (h : ∀ v ∈ vars, Usable v) :
    (applyVariables es vars).fault? = none ∧ (applyVariables es vars).settings = vars.foldl assign es := by
  induction vars generalizing es with
  | nil => exact ⟨rfl, rfl⟩
  | cons v rest ih =>
    obtain ⟨name, text⟩ := v
    have hrest : ∀ u ∈ rest, Usable u := fun u hu => h u (List.mem_cons_of_mem _ hu)
    obtain hmere | hset := h (name, text) (List.mem_cons_self ..)
    · have hkey : (String.ofList (settingName name)).isEmpty = true := by
        rw [show settingName name = [] from hmere]; rfl
      rw [applyVariables, ← settingName, if_pos hkey, List.foldl_cons,
        assign_of_none (assignment?_of_nil hmere)]
      exact ih es hrest
    · obtain ⟨⟨path, value⟩, hassign⟩ := Option.isSome_iff_exists.1 hset
      obtain ⟨hpath, hvalue⟩ := assignment?_eq_some.1 hassign
      have hkey : ¬ (String.ofList (settingName name)).isEmpty = true := fun hempty => by
        rw [String.isEmpty_iff.1 hempty] at hpath
        cases hpath
      rw [applyVariables, ← settingName, if_neg hkey, hpath, hvalue, List.foldl_cons, assign_of_some hassign]
      exact ih _ hrest

/-- A path apart from those of all variables leads to what it led to before. -/
theorem reach?_foldl_assign_of_apart (es : Entries) {vars : Variables} {q : List Value}
    (h : ∀ v ∈ vars, ∀ a, assignment? v = some a → Apart (texts a.1) q) :
    reach? q (.map (vars.foldl assign es)) = reach? q (.map es) := by
  induction vars generalizing es with
  | nil => rfl
  | cons v rest ih =>
    rw [List.foldl_cons, ih _ fun u hu => h u (List.mem_cons_of_mem _ hu)]
    cases hv : assignment? v with
    | none => rw [assign_of_none hv]
    | some a => rw [assign_of_some hv, Entries.reach?_setPath_of_apart _ _ (h v (List.mem_cons_self ..) a hv)]

/-! ### Names in one letter case -/

/-- The pieces of a name are in small letters. -/
def IsSmall (name : String) : Prop := ∀ p ∈ pieces name, Text.lowered p = p

/-- A character of ASCII that is no small letter. -/
def IsUnsmall (c : Char) : Prop := c.toNat < 128 ∧ ¬ (97 ≤ c.toNat ∧ c.toNat ≤ 122)

/-- A name is in the capitals of ASCII, with digits and signs. -/
def IsCapital (name : String) : Prop := ∀ p ∈ pieces name, ∀ c ∈ p, IsUnsmall c

/-- Two names are spelled in one letter case: in small letters, in the capitals of ASCII, or alike in the pieces
that both have. -/
def OneCase (a b : String) : Prop :=
  (IsSmall a ∧ IsSmall b) ∨ (IsCapital a ∧ IsCapital b) ∨ ∀ p ∈ (pieces a).zip (pieces b), p.1 = p.2

/-- The small form of a capital of ASCII is one character, 32 places further on. -/
theorem lowerChar_of_isUnsmall {c : Char} (h : IsUnsmall c) :
    ∃ d, Text.lowerChar c = [d] ∧
      d.toNat = if 65 ≤ c.toNat ∧ c.toNat ≤ 90 then c.toNat + 32 else c.toNat := by
  by_cases hcapital : 65 ≤ c.toNat ∧ c.toNat ≤ 90
  · refine ⟨Char.ofNat (c.toNat + 32), ?_, ?_⟩
    · simp [Text.lowerChar, h.1, hcapital]
    · have hvalid : (c.toNat + 32).isValidChar := .inl (by omega)
      rw [if_pos hcapital, Char.ofNat, dif_pos hvalid]
      rfl
  · exact ⟨c, Text.lowerChar_eq_self h.1 hcapital, by rw [if_neg hcapital]⟩

theorem flatMap_lowerChar_injOn {p q : List Char} (hp : ∀ c ∈ p, IsUnsmall c) (hq : ∀ c ∈ q, IsUnsmall c)
    (h : p.flatMap Text.lowerChar = q.flatMap Text.lowerChar) : p = q := by
  induction p generalizing q with
  | nil =>
    cases q with
    | nil => rfl
    | cons d q =>
      obtain ⟨d', hd', -⟩ := lowerChar_of_isUnsmall (hq d (List.mem_cons_self ..))
      rw [List.flatMap_cons, hd'] at h
      cases h
  | cons c p ih =>
    obtain ⟨c', hc', hcn⟩ := lowerChar_of_isUnsmall (hp c (List.mem_cons_self ..))
    cases q with
    | nil =>
      rw [List.flatMap_cons, hc'] at h
      cases h
    | cons d q =>
      have hcu := hp c (List.mem_cons_self ..)
      have hdu := hq d (List.mem_cons_self ..)
      obtain ⟨d', hd', hdn⟩ := lowerChar_of_isUnsmall hdu
      rw [List.flatMap_cons, List.flatMap_cons, hc', hd'] at h
      obtain ⟨rfl, hrest⟩ := List.cons.inj h
      have hcd : c = d := by
        unfold IsUnsmall at hcu hdu
        refine Char.toNat_inj.1 ?_
        split at hcn <;> split at hdn <;> omega
      rw [hcd, ih (fun e he => hp e (List.mem_cons_of_mem _ he))
        (fun e he => hq e (List.mem_cons_of_mem _ he)) hrest]

/-- Small letters tell the capitals of ASCII apart. -/
theorem lowered_injOn {p q : List Char} (hp : ∀ c ∈ p, IsUnsmall c) (hq : ∀ c ∈ q, IsUnsmall c)
    (h : Text.lowered p = Text.lowered q) : p = q := by
  have plain {cs : List Char} (hcs : ∀ c ∈ cs, IsUnsmall c) :
      Text.lowered cs = cs.flatMap Text.lowerChar := by
    refine if_neg fun hsigma => absurd (hcs _ (List.contains_iff_mem.1 hsigma)).1 (by decide)
  rw [plain hp, plain hq] at h
  exact flatMap_lowerChar_injOn hp hq h

/-- Where two names in one letter case share a key, they share the piece that says it. -/
theorem OneCase.eq_of_lowered_eq {a b : String} (h : OneCase a b) {p q : List Char}
    (hmem : (p, q) ∈ (pieces a).zip (pieces b)) (heq : Text.lowered p = Text.lowered q) : p = q := by
  obtain ⟨ha, hb⟩ | ⟨ha, hb⟩ | h := h
  · rw [← ha p (List.of_mem_zip hmem).1, heq, hb q (List.of_mem_zip hmem).2]
  · exact lowered_injOn (ha p (List.of_mem_zip hmem).1) (hb q (List.of_mem_zip hmem).2) heq
  · exact h _ hmem

/-- Lists whose images begin alike begin alike, where equal images come from equal elements. -/
theorem isPrefix_of_map {α β : Type} {f : α → β} {ps qs : List α} (h : ps.map f <+: qs.map f)
    (hinj : ∀ p q, (p, q) ∈ ps.zip qs → f p = f q → p = q) : ps <+: qs := by
  induction ps generalizing qs with
  | nil => exact List.nil_prefix
  | cons p ps ih =>
    cases qs with
    | nil => simp at h
    | cons q qs =>
      rw [List.map_cons, List.map_cons, List.cons_prefix_cons] at h
      obtain rfl := hinj p q (by simp) h.1
      rw [List.cons_prefix_cons]
      exact ⟨rfl, ih h.2 fun p' q' hmem => hinj p' q' (by simp [hmem])⟩

/-- **Of two names in one letter case, the one with the longer path comes later.** -/
theorem lt_of_oneCase {u v : String × String} {p q : List String} {x y : Value}
    (hu : assignment? u = some (p, x)) (hv : assignment? v = some (q, y)) (hcase : OneCase u.1 v.1)
    (hlonger : p <+: q) (hne : p ≠ q) : settingName u.1 < settingName v.1 := by
  have hp := path_of_assignment? hu
  have hq := path_of_assignment? hv
  refine settingName_lt_of_pieces (isPrefix_of_map (hp ▸ hq ▸ hlonger) ?_) fun heq => hne ?_
  · exact fun a b hmem heq => hcase.eq_of_lowered_eq hmem (String.ofList_injective heq)
  · rw [hp, hq, heq]

/-! ### Layers -/

/-- The settings of a project over the bundled ones, with what the variables assign over both. -/
def layered (bundled project : Entries) (vars : Variables) : Overlaid :=
  applyVariables (Entries.merge bundled project) (settingVariables vars)

/-- Loaded settings lie in layers. -/
theorem loadSettings_eq_layered {w : FileTree} {root : Path} {project : Entries} (vars : Variables)
    (h : projectSettings w root = .ok project) (hfault : (layered defaults project vars).fault? = none) :
    (loadSettings w vars root false).settings = .ok (layered defaults project vars).settings := by
  rw [layered] at hfault ⊢
  rw [loadSettings, h]
  simp only [hfault]
  rfl

/-- Variables are applied in the order of their names. -/
theorem settingVariables_pairwise (vars : Variables) :
    (settingVariables vars).Pairwise fun a b => a.1 ≤ b.1 := by
  have := @List.pairwise_mergeSort _ (fun a b : String × String => decide (a.1 ≤ b.1))
    (fun a b c hab hbc => by
      rw [decide_eq_true_eq] at *
      exact String.le_trans hab hbc)
    (fun a b => by
      rw [Bool.or_eq_true, decide_eq_true_eq, decide_eq_true_eq]
      exact String.le_total ..)
    (vars.filter fun v => v.1.startsWith variableStart)
  exact this.imp of_decide_eq_true

/-- Variables of settings in the order of their names stay as they are. -/
theorem settingVariables_of_pairwise {vars : Variables}
    (hstart : ∀ v ∈ vars, variableStart.toList <+: v.1.toList) (h : vars.Pairwise fun a b => a.1 ≤ b.1) :
    settingVariables vars = vars := by
  have hfilter : (vars.filter fun v => v.1.startsWith variableStart) = vars :=
    List.filter_eq_self.2 fun v hv => String.startsWith_string_iff.2 (hstart v hv)
  rw [settingVariables, hfilter]
  exact List.mergeSort_of_pairwise (h.imp decide_eq_true)

theorem toList_of_mem_settingVariables {vars : Variables} {v : String × String}
    (h : v ∈ settingVariables vars) : v.1.toList = variableStart.toList ++ settingName v.1 := by
  have hstart := (List.mem_filter.1 (List.mem_mergeSort.1 h)).2
  obtain ⟨rest, hrest⟩ := String.startsWith_string_iff.1 hstart
  rw [settingName, ← hrest]
  rfl

/-- A variable whose setting comes before that of another is applied before it. -/
theorem mem_before_of_lt {vars before after : Variables} {u v : String × String}
    (hsplit : settingVariables vars = before ++ v :: after) (hu : u ∈ settingVariables vars)
    (hlt : settingName u.1 < settingName v.1) : u ∈ before ∧ u ∉ after := by
  have hv : v ∈ settingVariables vars := by rw [hsplit]; exact List.mem_append_right _ (List.mem_cons_self ..)
  have hname : u.1 < v.1 := by
    rw [String.lt_iff_toList_lt, toList_of_mem_settingVariables hu, toList_of_mem_settingVariables hv]
    exact List.append_left_lt hlt
  have hnotAfter : u ∉ after := fun hafter => by
    have hsorted := settingVariables_pairwise vars
    rw [hsplit, List.pairwise_append] at hsorted
    exact String.not_lt.2 ((List.pairwise_cons.1 hsorted.2.1).1 u hafter) hname
  refine ⟨?_, hnotAfter⟩
  rw [hsplit, List.mem_append, List.mem_cons] at hu
  obtain hu | rfl | hu := hu
  · exact hu
  · exact absurd hname (String.lt_irrefl _)
  · exact absurd hu hnotAfter

section

variable {bundled project : Entries} {vars : Variables}

theorem layered_settings (h : ∀ v ∈ settingVariables vars, Usable v) :
    (layered bundled project vars).settings =
      (settingVariables vars).foldl assign (Entries.merge bundled project) :=
  (applyVariables_eq_foldl _ h).2

/-- A path that no variable has to do with leads through the layers below the variables. -/
theorem reach?_layered_of_apart (h : ∀ v ∈ settingVariables vars, Usable v) {q : List Value}
    (hapart : ∀ v ∈ settingVariables vars, ∀ a, assignment? v = some a → Apart (texts a.1) q) :
    reach? q (.map (layered bundled project vars).settings) =
      reach? q (.map (Entries.merge bundled project)) := by
  rw [layered_settings h]
  exact reach?_foldl_assign_of_apart _ hapart

/-- The path of a variable leads to its value, if no later variable has to do with it. -/
theorem reach?_layered_of_last (h : ∀ v ∈ settingVariables vars, Usable v) {before after : Variables}
    {v : String × String} (hsplit : settingVariables vars = before ++ v :: after) {path : List String}
    {value : Value} (hv : assignment? v = some (path, value))
    (hafter : ∀ u ∈ after, ∀ a, assignment? u = some a → Apart (texts a.1) (texts path)) :
    reach? (texts path) (.map (layered bundled project vars).settings) = some value := by
  rw [layered_settings h, hsplit, List.foldl_append, List.foldl_cons,
    reach?_foldl_assign_of_apart _ hafter, assign_of_some hv]
  exact Entries.reach?_setPath_self _ _ (path_ne_nil hv)

end

/-- **Settings take precedence key path by key path.**  Where the variables can be applied, all are.  A variable
whose path is apart from those of the later ones gives the value at that path.  A path apart from those of all
variables leads to what the project's settings over the bundled ones have there.  Of two variables in one letter
case, the one whose path goes on from the other's is applied after it, so among the later ones such shorter paths
take nothing away from its value. -/
theorem layers_take_precedence (bundled project : Entries) (vars : Variables)
    (h : ∀ v ∈ settingVariables vars, Usable v) :
    (layered bundled project vars).fault? = none ∧
      (settingVariables vars).Pairwise (fun a b => a.1 ≤ b.1) ∧
      (∀ (w : FileTree) (root : Path), projectSettings w root = .ok project → bundled = defaults →
        (loadSettings w vars root false).settings = .ok (layered bundled project vars).settings) ∧
      (∀ before v after path value, settingVariables vars = before ++ v :: after →
        assignment? v = some (path, value) →
        (∀ u ∈ after, ∀ a, assignment? u = some a → Apart (texts a.1) (texts path)) →
        reach? (texts path) (.map (layered bundled project vars).settings) = some value) ∧
      (∀ q : List Value,
        (∀ v ∈ settingVariables vars, ∀ a, assignment? v = some a → Apart (texts a.1) q) →
        reach? q (.map (layered bundled project vars).settings) =
          reach? q (.map (Entries.merge bundled project))) ∧
      ∀ before v after path value, settingVariables vars = before ++ v :: after →
        assignment? v = some (path, value) →
        (∀ u ∈ settingVariables vars, ∀ a, assignment? u = some a → OneCase u.1 v.1 → a.1 <+: path →
          a.1 ≠ path → u ∈ before ∧ u ∉ after) ∧
        ((∀ u ∈ after, ∀ a, assignment? u = some a →
            Apart (texts a.1) (texts path) ∨ (OneCase u.1 v.1 ∧ a.1 <+: path ∧ a.1 ≠ path)) →
          reach? (texts path) (.map (layered bundled project vars).settings) = some value) := by
  have hfault : (layered bundled project vars).fault? = none := (applyVariables_eq_foldl _ h).1
  refine ⟨hfault, settingVariables_pairwise vars, ?_, ?_, fun q => reach?_layered_of_apart h, ?_⟩
  · rintro w root hproject rfl
    exact loadSettings_eq_layered vars hproject hfault
  · exact fun before v after path value hsplit hv => reach?_layered_of_last h hsplit hv
  · intro before v after path value hsplit hv
    have hshorter (u) (hu : u ∈ settingVariables vars) (a) (ha : assignment? u = some a)
        (hcase : OneCase u.1 v.1) (hlonger : a.1 <+: path) (hne : a.1 ≠ path) : u ∈ before ∧ u ∉ after :=
      mem_before_of_lt hsplit hu (lt_of_oneCase ha hv hcase hlonger hne)
    refine ⟨hshorter, fun hafter => reach?_layered_of_last h hsplit hv fun u hu a ha => ?_⟩
    obtain hapart | ⟨hcase, hlonger, hne⟩ := hafter u hu a ha
    · exact hapart
    · have hmem : u ∈ settingVariables vars := by
        rw [hsplit]
        exact List.mem_append_right _ (List.mem_cons_of_mem _ hu)
      exact absurd hu (hshorter u hmem a ha hcase hlonger hne).2

/-- Two variables in capitals, of which one sets a section to a text and the other a setting in it. -/
def sampleVariables : Variables := [("HTMLCOMPOSE_LOGGING", "off"), ("HTMLCOMPOSE_LOGGING__LEVEL", "DEBUG")]

/-- The level comes last, and what no variable names comes from the project. -/
theorem sampleVariables_take_precedence :
    settingVariables sampleVariables = sampleVariables ∧ (∀ v ∈ sampleVariables, Usable v) ∧
      reach? (texts ["logging", "level"])
        (.map (layered defaults [(.text "composition", mapOf [("root", .text "site")])] sampleVariables).settings) =
          some (.text "DEBUG") ∧
      reach? (texts ["composition", "root"])
        (.map (layered defaults [(.text "composition", mapOf [("root", .text "site")])] sampleVariables).settings) =
          some (.text "site") := by
  have hsorted : settingVariables sampleVariables = sampleVariables :=
    settingVariables_of_pairwise (by decide) (by decide)
  have husable : ∀ v ∈ sampleVariables, Usable v := by decide +kernel
  obtain ⟨-, -, -, hlast, hapart, -⟩ := layers_take_precedence defaults
    [(.text "composition", mapOf [("root", .text "site")])] sampleVariables (hsorted.symm ▸ husable)
  refine ⟨hsorted, husable, ?_, ?_⟩
  · -- nothing is applied after the level
    refine hlast [("HTMLCOMPOSE_LOGGING", "off")] ("HTMLCOMPOSE_LOGGING__LEVEL", "DEBUG") [] _ _ hsorted ?_ ?_
    · rfl
    · exact fun u hu => absurd hu List.not_mem_nil
  · have hpaths : ∀ v ∈ sampleVariables,
        ¬ ((pieces v.1).map fun p => String.ofList (Text.lowered p)) <+: ["composition", "root"] ∧
          ¬ ["composition", "root"] <+: (pieces v.1).map fun p => String.ofList (Text.lowered p) := by
      decide
    rw [hapart _ fun v hv a ha => ?_]
    · rfl
    · rw [path_of_assignment? ha, Entries.apart_texts_iff]
      exact hpaths v (hsorted ▸ hv)

/-- **Beyond ASCII capitals do not tell names apart.**  `K` and the sign of the kelvin are capitals with one small
letter, so the path of `K__X` goes on from that of the sign; but the sign comes later, and what it sets takes the
place of the map that holds the longer path. -/
theorem capitals_of_one_small_letter :
    settingVariables [("HTMLCOMPOSE_K__X", "1"), ("HTMLCOMPOSE_\u212a", "2")] =
        [("HTMLCOMPOSE_K__X", "1"), ("HTMLCOMPOSE_\u212a", "2")] ∧
      (∀ v ∈ [("HTMLCOMPOSE_K__X", "1"), ("HTMLCOMPOSE_\u212a", "2")],
        ∀ c ∈ settingName v.1, c = '_' ∨ Text.lowerChar c ≠ [c]) ∧
      assignment? ("HTMLCOMPOSE_K__X", "1") = some (["k", "x"], .int 1) ∧
      assignment? ("HTMLCOMPOSE_\u212a", "2") = some (["k"], .int 2) ∧
      reach? (texts ["k", "x"])
        (.map (layered defaults [] [("HTMLCOMPOSE_K__X", "1"), ("HTMLCOMPOSE_\u212a", "2")]).settings) = none ∧
      reach? (texts ["k"])
        (.map (layered defaults [] [("HTMLCOMPOSE_K__X", "1"), ("HTMLCOMPOSE_\u212a", "2")]).settings) =
          some (.int 2) := by
  have hsorted : settingVariables [("HTMLCOMPOSE_K__X", "1"), ("HTMLCOMPOSE_\u212a", "2")] =
      [("HTMLCOMPOSE_K__X", "1"), ("HTMLCOMPOSE_\u212a", "2")] :=
    settingVariables_of_pairwise (by decide) (by decide)
  have hcapitals {name : String}
      (h : (settingName name).all (fun c => c == '_' || Text.lowerChar c != [c]) = true) :
      ∀ c ∈ settingName name, c = '_' ∨ Text.lowerChar c ≠ [c] := by
    simpa using h
  rw [layered, hsorted]
  exact ⟨rfl, List.forall_mem_cons.2 ⟨hcapitals (by decide), List.forall_mem_singleton.2 (hcapitals (by decide))⟩,
    rfl, rfl, rfl, rfl⟩

end Config
end PageComposer
