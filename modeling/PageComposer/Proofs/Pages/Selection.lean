/-
# The pages that are built

The pages of a directory are its `.html` files (`PageBuilder.files`), in the order of their names and each
under its stem.  Of two with one stem the later one counts, in the place of the earlier one
(`select_index`).  There is only one such pair of names (`stem_inj`), so all pages are built in the order of
their names, but for that pair (`chosen_none`).
-/

import Mathlib.Data.List.Basic
import Mathlib.Data.List.Induction
import Mathlib.Data.List.Nodup
import PageComposer.Pages.Build
import PageComposer.Proofs.Files.Changes

namespace PageComposer
namespace PageBuilder

/-! ### An index of names -/

/-- The pages of some names by their stems. -/
def index (dir : Path) (files : List String) : List (String × Path) :=
  files.foldl (fun pages n => discover.put (Path.stemOf n) (dir.child n) pages) []

/-- The last of some names with a stem. -/
def lastOf (files : List String) (stem : String) : Option String :=
  (files.filter fun n => Path.stemOf n == stem).getLast?

theorem keys_put (name : String) (path : Path) (pages : List (String × Path)) :
    (discover.put name path pages).map (·.1) =
      pages.map (·.1) ++ if name ∈ pages.map (·.1) then [] else [name] := by
  induction pages with
  | nil => rfl
  | cons p rest ih =>
    rw [discover.put]
    by_cases h : p.1 = name
    · simp [h]
    · simp only [beq_iff_eq, h, if_false, List.map_cons, List.cons_append, ih, List.mem_cons, Ne.symm h,
        false_or]

theorem lookup_put (name name' : String) (path : Path) (pages : List (String × Path)) :
    (discover.put name path pages).lookup name' =
      if name' = name then some path else pages.lookup name' := by
  induction pages with
  | nil =>
    by_cases h : name' = name
    · simp [discover.put, h]
    · have : (name' == name) = false := by simpa using h
      simp [discover.put, List.lookup_cons, this, h]
  | cons p rest ih =>
    obtain ⟨k, v⟩ := p
    rw [discover.put]
    by_cases hk : k = name
    · subst hk
      by_cases h : name' = k
      · simp [h]
      · have : (name' == k) = false := by simpa using h
        simp [List.lookup_cons, this, h]
    · have hk' : (k == name) = false := by simpa using hk
      simp only [hk', Bool.false_eq_true, if_false, List.lookup_cons, ih]
      by_cases h : name' = name
      · subst h
        have : (name' == k) = false := by simpa using Ne.symm hk
        simp [this]
      · simp [h]

theorem index_concat (dir : Path) (files : List String) (n : String) :
    index dir (files ++ [n]) = discover.put (Path.stemOf n) (dir.child n) (index dir files) := by
  simp [index]

/-- The stems stand in the order in which they first occur. -/
theorem keys_index (dir : Path) (files : List String) :
    (index dir files).map (·.1) = (files.map Path.stemOf).eraseDups := by
  induction files using List.reverseRecOn with
  | nil => rfl
  | append_singleton files n ih =>
    rw [index_concat, keys_put, ih, List.map_append, List.eraseDups_append]
    congr 1
    by_cases h : ∃ m ∈ files, Path.stemOf m = Path.stemOf n
    · simp [List.removeAll, h]
    · simp [List.removeAll, h, List.eraseDups_cons]

theorem nodup_keys_index (dir : Path) (files : List String) : ((index dir files).map (·.1)).Nodup := by
  induction files using List.reverseRecOn with
  | nil => exact List.nodup_nil
  | append_singleton files n ih =>
    rw [index_concat, keys_put]
    split
    · rwa [List.append_nil]
    · rename_i hnew
      exact List.nodup_append.2 ⟨ih, by simp, fun a ha b hb heq =>
        hnew (List.mem_singleton.1 hb ▸ heq ▸ ha)⟩

/-- Under a stem is the last file with it. -/
theorem lookup_index (dir : Path) (files : List String) (stem : String) :
    (index dir files).lookup stem = (lastOf files stem).map dir.child := by
  induction files using List.reverseRecOn with
  | nil => rfl
  | append_singleton files n ih =>
    rw [index_concat, lookup_put, lastOf, List.filter_append]
    by_cases h : stem = Path.stemOf n
    · simp [h]
    · have : (Path.stemOf n == stem) = false := by simpa using Ne.symm h
      simp [h, this, ih, lastOf]

theorem stem_of_lastOf {files : List String} {stem n : String} (h : lastOf files stem = some n) :
    Path.stemOf n = stem ∧ n ∈ files := by
  have := List.mem_filter.1 (List.mem_of_getLast? h)
  exact ⟨by simpa using this.2, this.1⟩

/-- The names of the files that are built: the last one of each stem that is asked for. -/
def chosen (files : List String) (names : Option (List String)) : List String :=
  (match names with
    | none => (files.map Path.stemOf).eraseDups
    | some stems => stems.eraseDups).filterMap (lastOf files)

theorem mem_of_mem_chosen {files : List String} {names : Option (List String)} {n : String}
    (h : n ∈ chosen files names) : n ∈ files := by
  obtain ⟨stem, -, hlast⟩ := List.mem_filterMap.1 h
  exact (stem_of_lastOf hlast).2

/-- A list of pages with different keys is told by its keys and what is under them. -/
theorem eq_filterMap_lookup {pages : List (String × Path)} (hd : (pages.map (·.1)).Nodup) :
    pages = (pages.map (·.1)).filterMap fun s => (pages.lookup s).map (s, ·) := by
  induction pages with
  | nil => rfl
  | cons p rest ih =>
    obtain ⟨k, v⟩ := p
    obtain ⟨hk, hrest⟩ := List.nodup_cons.1 hd
    have : ∀ s ∈ rest.map (·.1), (s == k) = false := fun s hs => by
      simpa using fun h : s = k => hk (h ▸ hs)
    rw [List.map_cons, List.filterMap_cons_some (b := (k, v)) (by simp)]
    congr 1
    refine (ih hrest).trans (List.filterMap_congr fun s hs => ?_)
    rw [List.lookup_cons, this s hs]

/-- **The pages that are asked for, in order.** -/
theorem select_index (dir : Path) (files : List String) (names : Option (List String)) :
    select (index dir files) names =
      (chosen files names).map fun n => (Path.stemOf n, dir.child n) := by
  have under : ∀ stems : List String,
      (stems.filterMap fun s => ((index dir files).lookup s).map (s, ·)) =
        (stems.filterMap (lastOf files)).map fun n => (Path.stemOf n, dir.child n) := by
    intro stems
    rw [List.map_filterMap]
    refine List.filterMap_congr fun s _ => ?_
    rw [lookup_index]
    cases hl : lastOf files s with
    | none => rfl
    | some n => simp [(stem_of_lastOf hl).1]
  cases names with
  | some stems => exact under stems.eraseDups
  | none =>
    rw [select, eq_filterMap_lookup (nodup_keys_index dir files), keys_index]
    exact under _

/-! ### The pages of a directory -/

/-- The names of the pages in a directory, in order. -/
def files (w : FileTree) (dir : Path) : List String :=
  if (w.isDirectory dir).toOption == some true then
    (((w.names (dir.locate w.here)).filter fun n => n.endsWith ".html").mergeSort fun a b => a ≤ b).filter
      fun n => (w.isFile (dir.child n)).toOption == some true
  else []

/-- What is kept where every question is answered. -/
theorem filter_of_filterM {ε α : Type} {f : α → Except ε Bool} {xs ys : List α}
    (h : xs.filterM f = .ok ys) : ys = xs.filter fun a => (f a).toOption == some true := by
  -- the answers come in reverse
  have go : ∀ (xs acc zs : List α), xs.filterAuxM f acc = .ok zs →
      zs = (xs.filter fun a => (f a).toOption == some true).reverse ++ acc := by
    intro xs
    induction xs with
    | nil => intro acc zs h; simpa [List.filterAuxM, pure, Except.pure, eq_comm] using h
    | cons a rest ih =>
      intro acc zs h
      rw [List.filterAuxM] at h
      cases hf : f a with
      | error e => rw [hf] at h; cases h
      | ok keep =>
        rw [hf] at h
        have := ih _ _ h
        cases keep <;> simpa [hf, Except.toOption] using this
  unfold List.filterM at h
  cases hx : xs.filterAuxM f [] with
  | error e => rw [hx] at h; cases h
  | ok zs =>
    rw [hx] at h
    rw [← Except.ok.inj h, go xs [] zs hx]
    simp

theorem discover_eq_ok {w : FileTree} {dir : Path} {available : List (String × Path)}
    {remark : Option String} (h : discover w dir = .ok (available, remark)) :
    available = index dir (files w dir) := by
  unfold discover at h
  cases hd : w.isDirectory dir with
  | error f => rw [hd] at h; cases h
  | ok there =>
    rw [hd] at h
    cases there with
    | false =>
      cases h
      simp [files, hd, Except.toOption, index]
    | true =>
      cases hf : w.find dir with
      | error f => simp [bind, Except.bind, hf] at h
      | ok loc =>
        obtain rfl := FileTree.locate_of_find hf
        simp only [bind, Except.bind, hf, if_true] at h
        split at h
        · cases h
        · rename_i kept hk
          have hchild : (fun n => ({ dir with parts := dir.parts ++ [n] } : Path)) = dir.child := rfl
          rw [hchild] at hk
          simp only [pure, Except.pure, Except.ok.injEq, Prod.mk.injEq] at h
          rw [← h.1, filter_of_filterM hk, files, hd, List.filter_map, List.foldl_map, index]
          simp only [Path.name_child]
          rfl

/-- What a page of a directory is: a file there, whose name ends in `.html`. -/
theorem file_of_mem_files {w : FileTree} {dir : Path} {n : String} (h : n ∈ files w dir) :
    (∃ e, (dir.locate w.here ++ [n], e) ∈ w.entries) ∧ n.endsWith ".html" = true ∧
      ∃ f, w.status (dir.child n) = .ok (.file f) := by
  unfold files at h
  split at h
  · obtain ⟨hsorted, hfile⟩ := List.mem_filter.1 h
    obtain ⟨hname, hhtml⟩ := List.mem_filter.1 (List.mem_mergeSort.1 hsorted)
    refine ⟨?_, hhtml, ?_⟩
    · obtain ⟨⟨loc, e⟩, hmem, hn⟩ := List.mem_filterMap.1 hname
      dsimp only at hn
      cases hl : loc.getLast? with
      | none => rw [hl] at hn; cases hn
      | some last =>
        rw [hl] at hn
        dsimp only at hn
        split at hn
        · rename_i hdir
          obtain rfl := Option.some.inj hn
          rw [← eq_of_beq hdir, List.dropLast_append_getLast? _ hl]
          exact ⟨e, hmem⟩
        · cases hn
    · unfold FileTree.isFile at hfile
      cases hs : w.status? (dir.child n) with
      | error f => rw [hs] at hfile; cases hfile
      | ok e =>
        rw [hs] at hfile
        match e with
        | some (.file f) => exact ⟨f, FileTree.status?_eq_some.1 hs⟩
        | some .directory => cases hfile
        | none => cases hfile
  · cases h

theorem isName_of_mem_files {w : FileTree} (sound : w.IsSound) {dir : Path} {n : String}
    (h : n ∈ files w dir) : IsName n := by
  obtain ⟨⟨e, hmem⟩, -, -⟩ := file_of_mem_files h
  exact sound.names _ hmem n (by simp)

/-! ### Their order -/

/-- The stem of a page: its name without `.html`, unless that leaves nothing. -/
theorem stem_of_html {n : String} (h : n.endsWith ".html" = true) :
    n = ".html" ∧ Path.stemOf n = ".html" ∨ n = Path.stemOf n ++ ".html" := by
  have hsuffix : ".html".toList <:+ n.toList := by
    simpa using (String.Slice.endsWith_string_iff (s := n.toSlice)).1 h
  obtain ⟨cs, hcs⟩ := hsuffix
  have hlist : n.toList = cs ++ ['.', 'h', 't', 'm', 'l'] := hcs.symm
  have hn : n = String.ofList (cs ++ ['.', 'h', 't', 'm', 'l']) := by
    rw [← hlist, String.ofList_toList]
  have hlast : (n.toList.reverse.takeWhile (· != '.')) = ['l', 'm', 't', 'h'] := by
    rw [hlist]
    simp
  rw [Path.stemOf, hlast, hlist]
  cases cs with
  | nil => exact .inl ⟨hn, hn⟩
  | cons c cs =>
    right
    have htake : (c :: cs ++ ['.', 'h', 't', 'm', 'l']).take (cs.length + 1) = c :: cs := by simp
    have hlength : (c :: cs ++ ['.', 'h', 't', 'm', 'l']).length - 4 = cs.length + 2 := by
      simp
    simp only [List.length_cons, List.length_nil, Nat.zero_add, Nat.reduceAdd] at hlength ⊢
    rw [hlength, if_neg (by simp), show cs.length + 2 - 1 = cs.length + 1 from rfl, htake]
    exact hn.trans (String.ofList_append ..)

/-- **Two pages of one stem** are the same, or one is `.html` and the other `.html.html`. -/
theorem stem_inj {m n : String} (hm : m.endsWith ".html" = true) (hn : n.endsWith ".html" = true)
    (h : Path.stemOf m = Path.stemOf n) :
    m = n ∨ m = ".html" ∧ n = ".html.html" ∨ m = ".html.html" ∧ n = ".html" := by
  rcases stem_of_html hm with ⟨rfl, hsm⟩ | hm' <;> rcases stem_of_html hn with ⟨rfl, hsn⟩ | hn'
  · exact .inl rfl
  · rw [← h, hsm] at hn'
    exact .inr (.inl ⟨rfl, hn'⟩)
  · rw [h, hsn] at hm'
    exact .inr (.inr ⟨hm', rfl⟩)
  · rw [hm', h, ← hn']
    exact .inl rfl

/-- The names in a directory are different. -/
theorem nodup_names {w : FileTree} (sound : w.IsSound) (loc : Location) : (w.names loc).Nodup := by
  have hnames : w.names loc = (w.entries.map (·.1)).filterMap fun l =>
      l.getLast?.bind fun name => if l.dropLast == loc then some name else none := by
    rw [List.filterMap_map]
    refine List.filterMap_congr fun e _ => ?_
    rw [Function.comp_apply]
    cases e.1.getLast? <;> rfl
  rw [hnames]
  refine List.Nodup.filterMap (fun a a' name ha ha' => ?_) sound.once
  have spelled : ∀ l : Location, name ∈ (l.getLast?.bind fun name =>
      if l.dropLast == loc then some name else none) → l = loc ++ [name] := by
    intro l hl
    obtain ⟨last, hlast, hl⟩ := Option.bind_eq_some_iff.1 hl
    split at hl
    · rename_i hdir
      rw [← Option.some.inj hl, ← eq_of_beq hdir, List.dropLast_append_getLast? _ hlast]
    · cases hl
  rw [spelled a ha, spelled a' ha']

/-- The pages of a directory are in the order of their names. -/
theorem sorted_files {w : FileTree} (sound : w.IsSound) (dir : Path) :
    (files w dir).Pairwise (· < ·) := by
  unfold files
  split
  · refine List.Pairwise.filter _ ?_
    have hle := @List.pairwise_mergeSort _ (fun a b : String => decide (a ≤ b))
      (fun a b c h₁ h₂ => by simpa using String.le_trans (of_decide_eq_true h₁) (of_decide_eq_true h₂))
      (fun a b => by simpa using String.le_total a b)
      ((w.names (dir.locate w.here)).filter fun n => n.endsWith ".html")
    have hnodup := (List.mergeSort_perm ((w.names (dir.locate w.here)).filter fun n => n.endsWith ".html")
      (fun a b : String => decide (a ≤ b))).nodup_iff.2 ((nodup_names sound _).filter _)
    refine (hle.and hnodup).imp fun {a b} hab => String.not_le.1 fun hba => ?_
    exact hab.2 (String.le_antisymm (of_decide_eq_true hab.1) hba)
  · exact List.Pairwise.nil

theorem eraseDups_of_nodup {as : List String} (h : as.Nodup) : as.eraseDups = as := by
  induction as with
  | nil => rfl
  | cons a as ih =>
    obtain ⟨ha, has⟩ := List.nodup_cons.1 h
    have : as.filter (fun b => !b == a) = as :=
      List.filter_eq_self.2 fun b hb => by simpa using fun he : b = a => ha (he ▸ hb)
    rw [List.eraseDups_cons, this, ih has]

/-- Under the stem of a name there is a page. -/
theorem exists_lastOf {files : List String} {n : String} (hn : n ∈ files) :
    ∃ m, lastOf files (Path.stemOf n) = some m := by
  cases hl : lastOf files (Path.stemOf n) with
  | none =>
    have := List.getLast?_eq_none_iff.1 hl
    exact absurd (beq_self_eq_true _) (List.filter_eq_nil_iff.1 this n hn)
  | some m => exact ⟨m, rfl⟩

/-- Of two names with one stem the later one counts. -/
theorem not_lt_of_lastOf {files : List String} (hsorted : files.Pairwise (· < ·)) {stem m n : String}
    (hl : lastOf files stem = some m) (hn : n ∈ files) (hstem : Path.stemOf n = stem) : ¬ m < n := by
  intro hlt
  have hmem : n ∈ files.filter fun n => Path.stemOf n == stem := List.mem_filter.2 ⟨hn, by simpa using hstem⟩
  have hpair := hsorted.filter fun n => Path.stemOf n == stem
  obtain ⟨before, hsplit⟩ := List.getLast?_eq_some_iff.1 hl
  rw [hsplit] at hmem hpair
  rcases List.mem_append.1 hmem with hb | hm
  · exact String.lt_asymm hlt ((List.pairwise_append.1 hpair).2.2 n hb m (List.mem_singleton_self m))
  · rw [List.mem_singleton.1 hm] at hlt
    exact String.lt_irrefl _ hlt

/-- The pages in order, `.html.html` in the place of `.html` if both are there. -/
def inOrder (files : List String) : List String :=
  if ".html" ∈ files ∧ ".html.html" ∈ files then
    (files.filter (· ≠ ".html.html")).map fun n => if n = ".html" then ".html.html" else n
  else files

/-- A value whose second occurrence is dropped. -/
theorem eraseDups_twice {a : String} {before between after : List String}
    (h : (before ++ a :: between ++ after).Nodup) :
    (before ++ a :: between ++ a :: after).eraseDups = before ++ a :: between ++ after := by
  obtain ⟨hfirst, hafter, hdisjoint⟩ := List.nodup_append.1 h
  have hremoved : (a :: after).removeAll (before ++ a :: between) = after := by
    rw [List.removeAll, List.filter_cons_of_neg (by simp)]
    refine List.filter_eq_self.2 fun s hs => ?_
    have : s ∉ before ++ a :: between := fun hm => hdisjoint s hm s hs rfl
    simpa using this
  rw [List.eraseDups_append, eraseDups_of_nodup hfirst, hremoved, eraseDups_of_nodup hafter]

/-- The stems of all pages, each once: those of the pages other than `.html.html`, if `.html` is one. -/
theorem eraseDups_stems {files : List String} (hsorted : files.Pairwise (· < ·))
    (hhtml : ∀ n ∈ files, n.endsWith ".html" = true) (h₁ : ".html" ∈ files) (h₂ : ".html.html" ∈ files) :
    (files.map Path.stemOf).eraseDups = (files.filter (· ≠ ".html.html")).map Path.stemOf := by
  have hd : files.Nodup := hsorted.imp fun hlt => String.ne_of_lt hlt
  obtain ⟨before, rest, rfl⟩ := List.append_of_mem h₁
  have hrest : ".html.html" ∈ rest := by
    rcases List.mem_append.1 h₂ with hb | hr
    · have := (List.pairwise_append.1 hsorted).2.2 _ hb _ (List.mem_cons_self ..)
      exact absurd this (by decide)
    · simpa using hr
  obtain ⟨between, after, rfl⟩ := List.append_of_mem hrest
  rw [← List.cons_append, ← List.append_assoc] at hd hhtml ⊢
  obtain ⟨hfirst, hsecond, hdisjoint⟩ := List.nodup_append.1 hd
  have hnotAfter : ".html.html" ∉ after := (List.nodup_cons.1 hsecond).1
  have hkept : (before ++ ".html" :: between ++ ".html.html" :: after).filter (· ≠ ".html.html") =
      before ++ ".html" :: between ++ after := by
    have hfirst : (before ++ ".html" :: between).filter (· ≠ ".html.html") = before ++ ".html" :: between :=
      List.filter_eq_self.2 fun n hn => by
        simpa using hdisjoint n hn _ (List.mem_cons_self ..)
    have hafter : after.filter (· ≠ ".html.html") = after :=
      List.filter_eq_self.2 fun n hn => by simpa using fun h : n = ".html.html" => hnotAfter (h ▸ hn)
    rw [List.filter_append, hfirst, List.filter_cons_of_neg (by simp), hafter]
  have hkeptNodup : (before ++ ".html" :: between ++ after).Nodup := hkept ▸ hd.filter _
  -- among the kept names no two have one stem
  have hstems : ((before ++ ".html" :: between ++ after).map Path.stemOf).Nodup := by
    refine (List.nodup_map_iff_inj_on hkeptNodup).2 fun m hm n hn heq => ?_
    rw [← hkept] at hm hn
    obtain ⟨hm, hm'⟩ := List.mem_filter.1 hm
    obtain ⟨hn, hn'⟩ := List.mem_filter.1 hn
    rcases stem_inj (hhtml m hm) (hhtml n hn) heq with h | ⟨-, h⟩ | ⟨h, -⟩
    · exact h
    · exact absurd h (by simpa using hn')
    · exact absurd h (by simpa using hm')
  have hsame : Path.stemOf ".html.html" = Path.stemOf ".html" := by decide
  rw [hkept]
  simp only [List.map_append, List.map_cons, hsame] at hstems ⊢
  exact eraseDups_twice hstems

/-- **All pages are built in the order of their names**, except that `.html.html` takes the place of
`.html`. -/
theorem chosen_none {files : List String} (hsorted : files.Pairwise (· < ·))
    (hhtml : ∀ n ∈ files, n.endsWith ".html" = true) : chosen files none = inOrder files := by
  have hd : files.Nodup := hsorted.imp fun hlt => String.ne_of_lt hlt
  unfold inOrder chosen
  dsimp only
  split
  · rename_i hboth
    rw [eraseDups_stems hsorted hhtml hboth.1 hboth.2, List.filterMap_map, ← List.filterMap_eq_map]
    refine List.filterMap_congr fun n hn => ?_
    obtain ⟨hn, hkept⟩ := List.mem_filter.1 hn
    obtain ⟨m, hl⟩ := exists_lastOf hn
    obtain ⟨hstem, hm⟩ := stem_of_lastOf hl
    rw [Function.comp_apply, Function.comp_apply, hl]
    congr 1
    rcases stem_inj (hhtml m hm) (hhtml n hn) hstem with rfl | ⟨-, h⟩ | ⟨rfl, rfl⟩
    · refine (if_neg fun h => ?_).symm
      -- `.html.html` is a later name with this stem
      exact not_lt_of_lastOf hsorted hl hboth.2 (h ▸ by decide) (h ▸ by decide)
    · exact absurd h (by simpa using hkept)
    · rfl
  · rename_i hboth
    have hinj : ∀ m ∈ files, ∀ n ∈ files, Path.stemOf m = Path.stemOf n → m = n := by
      intro m hm n hn heq
      rcases stem_inj (hhtml m hm) (hhtml n hn) heq with h | ⟨rfl, rfl⟩ | ⟨rfl, rfl⟩
      · exact h
      · exact absurd ⟨hm, hn⟩ hboth
      · exact absurd ⟨hn, hm⟩ hboth
    rw [eraseDups_of_nodup ((List.nodup_map_iff_inj_on hd).2 hinj), List.filterMap_map]
    calc files.filterMap (lastOf files ∘ Path.stemOf) = files.filterMap some := by
          refine List.filterMap_congr fun n hn => ?_
          obtain ⟨m, hl⟩ := exists_lastOf hn
          obtain ⟨hstem, hm⟩ := stem_of_lastOf hl
          rw [Function.comp_apply, hl, hinj m hm n hn hstem]
      _ = files := List.filterMap_some

end PageBuilder
end PageComposer
