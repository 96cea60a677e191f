/-
# Which names of variables are key paths

Pieces can be told from the text that they make with pairs of underscores between them if no piece holds a pair and
none but the last ends in an underscore (`Config.Separable`): the pairs are found from the left, so an underscore in
front of a pair would be taken for its first half.  Splitting gives such pieces, and no others make the same text
(`splitPairs_eq_iff`).

A piece is empty exactly where a run of underscores is hollow (`nil_mem_splitPairs_iff`).

| a run of underscores | is hollow from |
| --- | --- |
| between other characters | four on |
| at the beginning | two on |
| at the end | two on, but for three |

In ASCII a name splits as its small letters do, so a key path is given back whatever the letter case.
-/

import PageComposer.Proofs.Config.Precedence
import PageComposer.Proofs.Text.Blanks

namespace PageComposer

namespace Text

/-- A character of ASCII is written small as one character. -/
theorem lowerChar_of_lt {c : Char} (h : c.toNat < 128) : lowerChar c = [c.toLower] := by
  have hascii : ∀ n < 128, lowerChar (Char.ofNat n) = [(Char.ofNat n).toLower] := by decide +kernel
  exact of_ascii (P := fun c => lowerChar c = [c.toLower]) hascii h

/-- A text of ASCII is written small character by character. -/
theorem lowered_of_lt {cs : List Char} (h : ∀ c ∈ cs, c.toNat < 128) : lowered cs = cs.map Char.toLower := by
  have hsigma : ¬ cs.contains capitalSigma = true := fun hmem =>
    absurd (h _ (List.contains_iff_mem.1 hmem)) (by decide)
  rw [lowered, if_neg hsigma, List.map_eq_flatMap]
  exact List.flatMap_congr fun c hc => lowerChar_of_lt (h c hc)

theorem toLower_of_not_isUpper {c : Char} (h : ¬ c.isUpper = true) : c.toLower = c :=
  dif_neg fun hcapital => h (decide_eq_true hcapital)

theorem toLower_eq_underscore_iff {c : Char} (h : c.toNat < 128) : c.toLower = '_' ↔ c = '_' := by
  have hascii : ∀ n < 128, (Char.ofNat n).toLower = '_' ↔ Char.ofNat n = '_' := by decide +kernel
  exact of_ascii (P := fun c => c.toLower = '_' ↔ c = '_') hascii h

end Text

namespace Config

/-! ### Pieces -/

/-- Pieces that can be told from the text that they make with pairs of underscores between them. -/
structure Separable (ps : List (List Char)) : Prop where
  ne_nil : ps ≠ []
  /-- No piece holds a pair. -/
  whole : ∀ p ∈ ps, ¬ ['_', '_'] <:+: p
  /-- No piece but the last ends in an underscore. -/
  apart : ∀ p ∈ ps.dropLast, p.getLast? ≠ some '_'

theorem splitPairs_cons {c : Char} {rest : List Char} (h : c = '_' → rest.head? ≠ some '_') :
    ∃ piece more, splitPairs rest = piece :: more ∧ splitPairs (c :: rest) = (c :: piece) :: more := by
  obtain ⟨piece, more, hrest⟩ := List.exists_cons_of_ne_nil (splitPairs_ne_nil rest)
  refine ⟨piece, more, hrest, ?_⟩
  rw [splitPairs, hrest]
  rintro tail rfl
  rintro rfl
  exact h rfl rfl

/-- A text without pairs is one piece. -/
theorem splitPairs_of_whole {p : List Char} (h : ¬ ['_', '_'] <:+: p) : splitPairs p = [p] := by
  induction p with
  | nil => rfl
  | cons c p ih =>
    have hhead : c = '_' → p.head? ≠ some '_' := by
      rintro rfl hp
      obtain ⟨tail, rfl⟩ := List.head?_eq_some_iff.1 hp
      exact h ⟨[], tail, rfl⟩
    obtain ⟨piece, more, hp, hcons⟩ := splitPairs_cons hhead
    rw [ih fun hinside => h (hinside.trans (List.suffix_cons c p).isInfix)] at hp
    obtain ⟨rfl, rfl⟩ := List.cons.inj hp
    exact hcons

/-- A piece ends at the first pair behind it. -/
theorem splitPairs_append {p : List Char} (h : ¬ ['_', '_'] <:+: p) (hlast : p.getLast? ≠ some '_') (rest : List Char) :
    splitPairs (p ++ '_' :: '_' :: rest) = p :: splitPairs rest := by
  induction p with
  | nil => rw [List.nil_append, splitPairs]
  | cons c p ih =>
    have hhead : c = '_' → (p ++ '_' :: '_' :: rest).head? ≠ some '_' := by
      rintro rfl hp
      cases p with
      | nil => exact hlast rfl
      | cons d p =>
        obtain rfl := Option.some.inj hp
        exact h ⟨[], p, rfl⟩
    obtain ⟨piece, more, hp, hcons⟩ := splitPairs_cons hhead
    have hlast' : p.getLast? ≠ some '_' := by
      cases p with
      | nil => nofun
      | cons d p => rwa [List.getLast?_cons_cons] at hlast
    rw [ih (fun hinside => h (hinside.trans (List.suffix_cons c p).isInfix)) hlast'] at hp
    obtain ⟨rfl, rfl⟩ := List.cons.inj hp
    exact hcons

/-- **Separable pieces are found again.** -/
theorem splitPairs_intercalate {ps : List (List Char)} (h : Separable ps) :
    splitPairs (['_', '_'].intercalate ps) = ps := by
  obtain ⟨hne, hwhole, hapart⟩ := h
  induction ps with
  | nil => exact absurd rfl hne
  | cons p ps ih =>
    cases ps with
    | nil =>
      rw [List.intercalate_singleton]
      exact splitPairs_of_whole (hwhole p (List.mem_singleton_self p))
    | cons q ps =>
      rw [List.dropLast_cons_cons, List.forall_mem_cons] at hapart
      rw [List.forall_mem_cons] at hwhole
      rw [List.intercalate_cons_cons, List.append_assoc]
      exact (splitPairs_append hwhole.1 hapart.1 _).trans
        (congrArg _ (ih (List.cons_ne_nil q ps) hwhole.2 hapart.2))

/-- **Splitting gives separable pieces.** -/
theorem separable_splitPairs (cs : List Char) : Separable (splitPairs cs) := by
  fun_induction splitPairs cs with
  | case1 => exact ⟨List.cons_ne_nil _ _, by simp, by simp⟩
  | case2 rest ih =>
    obtain ⟨hne, hwhole, hapart⟩ := ih
    refine ⟨List.cons_ne_nil _ _, List.forall_mem_cons.2 ⟨by simp, hwhole⟩, ?_⟩
    rw [List.dropLast_cons_of_ne_nil hne]
    exact List.forall_mem_cons.2 ⟨by simp, hapart⟩
  | case3 c rest _ h => exact absurd h (splitPairs_ne_nil rest)
  | case4 c rest hpair piece more h ih =>
    have hrest : ['_', '_'].intercalate (piece :: more) = rest := h ▸ intercalate_splitPairs rest
    rw [h] at ih
    obtain ⟨-, hwhole, hapart⟩ := ih
    rw [List.forall_mem_cons] at hwhole
    refine ⟨List.cons_ne_nil _ _, List.forall_mem_cons.2 ⟨fun hinside => ?_, hwhole.2⟩, ?_⟩
    · -- a pair that the longer piece holds begins with its first character
      rcases List.infix_cons_iff.1 hinside with hprefix | hinside
      · obtain ⟨tail, htail⟩ := hprefix
        obtain ⟨rfl, rfl⟩ := List.cons.inj htail
        cases more with
        | nil => exact hpair _ rfl (hrest.symm.trans (List.intercalate_singleton ..))
        | cons q more => exact hpair _ rfl (hrest.symm.trans (List.intercalate_cons_cons ..))
      · exact hwhole.1 hinside
    · cases more with
      | nil => simp
      | cons q more =>
        rw [List.dropLast_cons_cons, List.forall_mem_cons] at hapart ⊢
        refine ⟨fun hlast => ?_, hapart.2⟩
        cases piece with
        | nil =>
          obtain rfl := Option.some.inj hlast
          exact hpair _ rfl (hrest.symm.trans (List.intercalate_cons_cons ..))
        | cons d piece => exact hapart.1 (by rwa [List.getLast?_cons_cons] at hlast)

/-- **Pieces are those of a text exactly if they are separable and make it.** -/
theorem splitPairs_eq_iff {cs : List Char} {ps : List (List Char)} :
    splitPairs cs = ps ↔ Separable ps ∧ ['_', '_'].intercalate ps = cs := by
  constructor
  · rintro rfl
    exact ⟨separable_splitPairs cs, intercalate_splitPairs cs⟩
  · rintro ⟨h, rfl⟩
    exact splitPairs_intercalate h

/-! ### Runs of underscores -/

/-- Whether a run of `n` underscores leaves nothing between two of its pairs, or between a pair and the beginning or
the end of the text. -/
def isHollow (atStart atEnd : Bool) (n : Nat) : Bool :=
  if atStart then 2 ≤ n else if atEnd then (1 ≤ n && n % 2 == 0) || 4 ≤ n else 4 ≤ n

/-- A hollow run of underscores in a text, with what stands before it and behind it. -/
structure HollowRun (cs before after : List Char) (n : Nat) : Prop where
  spells : cs = before ++ (List.replicate n '_' ++ after)
  left : before.getLast? ≠ some '_'
  right : after.head? ≠ some '_'
  hollow : isHollow before.isEmpty after.isEmpty n = true

variable {cs before after : List Char} {n : Nat}

/-- A hollow run has a pair. -/
theorem HollowRun.two_le (h : HollowRun cs before after n) : 2 ≤ n := by
  have := h.hollow
  unfold isHollow at this
  split at this
  · simpa using this
  · split at this
    · simp only [Bool.or_eq_true, Bool.and_eq_true, decide_eq_true_eq, beq_iff_eq] at this
      omega
    · have : 4 ≤ n := by simpa using this
      omega

/-- A text made of pieces ends as the last of them does, if that is not empty. -/
theorem getLast?_intercalate (sep : List Char) {ps : List (List Char)} (hne : ps ≠ []) {c : Char}
    (h : (ps.getLast hne).getLast? = some c) : (sep.intercalate ps).getLast? = some c := by
  induction ps with
  | nil => exact absurd rfl hne
  | cons p ps ih =>
    cases ps with
    | nil => rwa [List.intercalate_singleton]
    | cons q ps =>
      rw [List.getLast_cons (List.cons_ne_nil q ps)] at h
      rw [List.intercalate_cons_cons, List.getLast?_append, ih (List.cons_ne_nil q ps) h]
      rfl

/-- Behind a text that does not end in an underscore a pair is a separator. -/
theorem splitPairs_append_pair (h : before.getLast? ≠ some '_') (rest : List Char) :
    splitPairs (before ++ (['_', '_'] ++ rest)) = splitPairs before ++ splitPairs rest := by
  have hne := splitPairs_ne_nil
  rw [splitPairs_eq_iff, intercalate_append _ (hne before) (hne rest), intercalate_splitPairs, intercalate_splitPairs]
  refine ⟨⟨List.append_ne_nil_of_left_ne_nil (hne before) _, fun p hp => ?_, fun p hp => ?_⟩, rfl⟩
  · exact (List.mem_append.1 hp).elim ((separable_splitPairs before).whole p) ((separable_splitPairs rest).whole p)
  · rw [List.dropLast_append_of_ne_nil (hne rest), List.mem_append] at hp
    obtain hp | hp := hp
    · rw [← List.dropLast_concat_getLast (hne before), List.mem_append, List.mem_singleton] at hp
      obtain hp | rfl := hp
      · exact (separable_splitPairs before).apart p hp
      · intro hlast
        have := getLast?_intercalate ['_', '_'] (hne before) hlast
        rw [intercalate_splitPairs] at this
        exact h this
    · exact (separable_splitPairs rest).apart p hp

/-- What stands behind a hollow run and a pair before it has a hollow run with them, too. -/
theorem HollowRun.behind {p : List Char} (hp : p ≠ []) (hlast : p.getLast? ≠ some '_') (h : HollowRun cs before after n) :
    ∃ before after n, HollowRun (p ++ (['_', '_'] ++ cs)) before after n := by
  have htwo := h.two_le
  obtain ⟨rfl, hleft, hright, hhollow⟩ := h
  have hp' : p.isEmpty = false := List.isEmpty_eq_false_iff.2 hp
  cases before with
  | nil =>
    -- the run goes on from the pair
    refine ⟨p, after, n + 2, ⟨?_, hlast, hright, ?_⟩⟩
    · rw [List.nil_append, Nat.add_comm, List.replicate_add, List.append_assoc]
      rfl
    · have hfour : 4 ≤ n + 2 := by omega
      simp [isHollow, hp', hfour]
  | cons c before =>
    refine ⟨p ++ (['_', '_'] ++ c :: before), after, n, ⟨by simp only [List.append_assoc], ?_, hright, ?_⟩⟩
    · rwa [List.getLast?_append_of_ne_nil _ (by simp), List.getLast?_append_of_ne_nil _ (by simp)]
    · have hempty : (p ++ (['_', '_'] ++ c :: before)).isEmpty = false := List.isEmpty_eq_false_iff.2 (by simp)
      rwa [hempty]

/-- Separable pieces of which one is empty make a text with a hollow run, or the empty one. -/
theorem exists_hollowRun {ps : List (List Char)} (h : Separable ps) (hmem : [] ∈ ps)
    (hne : ['_', '_'].intercalate ps ≠ []) :
    ∃ before after n, HollowRun (['_', '_'].intercalate ps) before after n := by
  induction ps with
  | nil => exact absurd hmem List.not_mem_nil
  | cons p ps ih =>
    cases ps with
    | nil =>
      rw [List.intercalate_singleton] at hne
      exact absurd (List.mem_singleton.1 hmem).symm hne
    | cons q ps =>
      obtain ⟨-, hwhole, hapart⟩ := h
      rw [List.dropLast_cons_cons, List.forall_mem_cons] at hapart
      rw [List.forall_mem_cons] at hwhole
      rw [List.intercalate_cons_cons, List.append_assoc]
      generalize hrest : ['_', '_'].intercalate (q :: ps) = rest at ih
      cases p with
      | nil =>
        -- the run at the beginning has a pair
        refine ⟨[], rest.dropWhile (· == '_'), 2 + (rest.takeWhile (· == '_')).length, ⟨?_, nofun, ?_, ?_⟩⟩
        · have hrun : rest.takeWhile (· == '_') = List.replicate (rest.takeWhile (· == '_')).length '_' :=
            List.eq_replicate_iff.2 ⟨rfl, fun d hd => eq_of_beq (List.all_eq_true.1 List.all_takeWhile d hd)⟩
          rw [List.replicate_add, List.append_assoc, ← hrun, List.takeWhile_append_dropWhile]
          rfl
        · intro hhead
          have := List.head?_dropWhile_not (· == '_') rest
          rw [hhead] at this
          exact Bool.false_ne_true this.symm
        · simp [isHollow]
      | cons c p =>
        by_cases hnil : rest = []
        · subst hnil
          exact ⟨c :: p, [], 2, ⟨rfl, hapart.1, nofun, rfl⟩⟩
        · obtain ⟨before, after, n, hrun⟩ := ih ⟨List.cons_ne_nil _ _, hwhole.2, hapart.2⟩
            ((List.mem_cons.1 hmem).resolve_left nofun) hnil
          exact hrun.behind (List.cons_ne_nil c p) hapart.1

/-- **A piece is empty exactly if the text is, or some run of underscores is hollow.** -/
theorem nil_mem_splitPairs_iff : [] ∈ splitPairs cs ↔ cs = [] ∨ ∃ before after n, HollowRun cs before after n := by
  constructor
  · intro hmem
    by_cases hcs : cs = []
    · exact .inl hcs
    · have hjoin := intercalate_splitPairs cs
      have := exists_hollowRun (separable_splitPairs cs) hmem (hjoin.symm ▸ hcs)
      rw [hjoin] at this
      exact .inr this
  · rintro (rfl | ⟨before, after, n, hrun⟩)
    · exact List.mem_singleton_self []
    · obtain ⟨k, rfl⟩ := Nat.exists_eq_add_of_le hrun.two_le
      have hsplit : cs = before ++ (['_', '_'] ++ (List.replicate k '_' ++ after)) := by
        rw [hrun.spells, List.replicate_add, List.append_assoc]
        rfl
      rw [hsplit, splitPairs_append_pair hrun.left, List.mem_append]
      have hhollow := hrun.hollow
      cases before with
      | nil => exact .inl (List.mem_singleton_self [])
      | cons c before =>
        right
        obtain hk | ⟨rfl, hafter⟩ : 2 ≤ k ∨ k = 0 ∧ after = [] := by
          cases after with
          | nil =>
            simp [isHollow] at hhollow
            exact (by omega : 2 ≤ k ∨ k = 0).imp_right fun hk => ⟨hk, rfl⟩
          | cons d after =>
            simp [isHollow] at hhollow
            omega
        · obtain ⟨m, rfl⟩ := Nat.exists_eq_add_of_le hk
          rw [List.replicate_add, List.append_assoc]
          exact List.mem_cons_self ..
        · subst hafter
          exact List.mem_singleton_self []

/-! ### Key paths -/

/-- A name is in ASCII. -/
def IsAscii (name : String) : Prop := ∀ c ∈ name.toList, c.toNat < 128

instance (name : String) : Decidable (IsAscii name) :=
  List.decidableBAll (fun c : Char => c.toNat < 128) name.toList

/-- A key that can be a part of a path: in small letters of ASCII, without a pair of underscores. -/
structure IsSegment (s : String) : Prop where
  ne_empty : s ≠ ""
  ascii : IsAscii s
  small : ∀ c ∈ s.toList, ¬ c.isUpper = true
  whole : ¬ ['_', '_'] <:+: s.toList

/-- Letters can be changed before a text is split, if no underscore comes or goes. -/
theorem splitPairs_map {f : Char → Char} (h : ∀ c ∈ cs, f c = '_' ↔ c = '_') :
    splitPairs (cs.map f) = (splitPairs cs).map (List.map f) := by
  fun_induction splitPairs cs with
  | case1 => rfl
  | case2 rest ih =>
    have hunderscore : f '_' = '_' := (h '_' (List.mem_cons_self ..)).2 rfl
    rw [List.map_cons, List.map_cons, hunderscore, splitPairs, ih fun c hc => h c (by simp [hc])]
    rfl
  | case3 c rest _ hnil => exact absurd hnil (splitPairs_ne_nil rest)
  | case4 c rest hpair piece more hsplit ih =>
    rw [List.forall_mem_cons] at h
    have hhead : f c = '_' → (rest.map f).head? ≠ some '_' := by
      intro hc hrest
      cases rest with
      | nil => cases hrest
      | cons d rest =>
        exact hpair rest (h.1.1 hc) (by rw [(h.2 d (List.mem_cons_self ..)).1 (Option.some.inj hrest)])
    obtain ⟨piece', more', hrest, hcons⟩ := splitPairs_cons hhead
    rw [ih h.2, hsplit, List.map_cons] at hrest
    obtain ⟨rfl, rfl⟩ := List.cons.inj hrest
    rw [List.map_cons, hcons]
    rfl

variable {name : String}

/-- **A name is no key path exactly if a piece of it is empty.** -/
theorem keyPath?_eq_none_iff : keyPath? name = none ↔ [] ∈ splitPairs name.toList := by
  rw [keyPath?]
  split
  · rename_i hempty
    obtain ⟨p, hp, hnil⟩ := List.any_eq_true.1 hempty
    obtain rfl := List.isEmpty_iff.1 hnil
    exact iff_of_true rfl hp
  · rename_i hempty
    exact iff_of_false (Option.some_ne_none _) fun hmem => hempty (List.any_eq_true.2 ⟨[], hmem, rfl⟩)

theorem mem_of_mem_splitPairs {p : List Char} (hp : p ∈ splitPairs cs) {c : Char} (hc : c ∈ p) : c ∈ cs := by
  fun_induction splitPairs cs generalizing p with
  | case1 => rwa [List.mem_singleton.1 hp] at hc
  | case2 rest ih =>
    obtain rfl | hp := List.mem_cons.1 hp
    · cases hc
    · exact List.mem_cons_of_mem _ (List.mem_cons_of_mem _ (ih hp hc))
  | case3 c rest _ hnil => exact absurd hnil (splitPairs_ne_nil rest)
  | case4 d rest hpair piece more hsplit ih =>
    rw [hsplit] at ih
    obtain rfl | hp := List.mem_cons.1 hp
    · obtain rfl | hc := List.mem_cons.1 hc
      · exact List.mem_cons_self ..
      · exact List.mem_cons_of_mem _ (ih (List.mem_cons_self ..) hc)
    · exact List.mem_cons_of_mem _ (ih (List.mem_cons_of_mem _ hp) hc)

/-- Small letters of ASCII can be split in the place of the name itself. -/
theorem splitPairs_lowered (h : IsAscii name) :
    splitPairs (Text.lowered name.toList) = (splitPairs name.toList).map Text.lowered := by
  rw [Text.lowered_of_lt h, splitPairs_map fun c hc => Text.toLower_eq_underscore_iff (h c hc)]
  exact List.map_congr_left fun p hp => (Text.lowered_of_lt fun c hc => h c (mem_of_mem_splitPairs hp hc)).symm

/-- The key path of a name in ASCII is the pieces of the name in small letters. -/
theorem keyPath?_eq_some_iff (h : IsAscii name) {path : List String} :
    keyPath? name = some path ↔ "" ∉ path ∧ splitPairs (Text.lowered name.toList) = path.map String.toList := by
  have hpath : splitPairs (Text.lowered name.toList) = path.map String.toList ↔
      (splitPairs name.toList).map (fun p => String.ofList (Text.lowered p)) = path := by
    rw [splitPairs_lowered h]
    constructor
    · intro heq
      have := congrArg (List.map String.ofList) heq
      simpa [Function.comp_def] using this
    · rintro rfl
      simp
  have hempty : "" ∈ (splitPairs name.toList).map (fun p => String.ofList (Text.lowered p)) ↔ keyPath? name = none := by
    rw [keyPath?_eq_none_iff, List.mem_map]
    constructor
    · rintro ⟨p, hp, hnil⟩
      have hlower : Text.lowered p = [] := String.ofList_injective hnil
      rw [Text.lowered_of_lt fun c hc => h c (mem_of_mem_splitPairs hp hc), List.map_eq_nil_iff] at hlower
      rwa [hlower] at hp
    · exact fun hmem => ⟨[], hmem, rfl⟩
  rw [hpath]
  constructor
  · intro hsome
    have hne : ¬ keyPath? name = none := by rw [hsome]; nofun
    rw [← hempty] at hne
    rw [keyPath?] at hsome
    split at hsome
    · cases hsome
    · obtain rfl := Option.some.inj hsome
      exact ⟨hne, rfl⟩
  · rintro ⟨hne, rfl⟩
    rw [hempty] at hne
    rw [keyPath?] at hne ⊢
    split
    · rename_i hany
      exact absurd (if_pos hany) hne
    · rfl

theorem toList_intercalate_pairs (path : List String) :
    ("__".intercalate path).toList = ['_', '_'].intercalate (path.map String.toList) := by
  rw [String.toList_intercalate]
  rfl

/-- What is made of pieces holds the characters of the pieces and of what stands between them. -/
theorem mem_of_mem_intercalate {sep : List Char} {ps : List (List Char)} {c : Char} (h : c ∈ sep.intercalate ps) :
    c ∈ sep ∨ ∃ p ∈ ps, c ∈ p := by
  induction ps with
  | nil => cases h
  | cons p ps ih =>
    cases ps with
    | nil =>
      rw [List.intercalate_singleton] at h
      exact .inr ⟨p, List.mem_singleton_self p, h⟩
    | cons q ps =>
      rw [List.intercalate_cons_cons, List.mem_append, List.mem_append] at h
      obtain (h | h) | h := h
      · exact .inr ⟨p, List.mem_cons_self .., h⟩
      · exact .inl h
      · exact (ih h).imp_right fun ⟨p', hp', hc⟩ => ⟨p', List.mem_cons_of_mem _ hp', hc⟩

/-- Joined segments are in small letters. -/
theorem lowered_segments {segments : List String} (h : ∀ s ∈ segments, IsSegment s) :
    Text.lowered ("__".intercalate segments).toList = ("__".intercalate segments).toList := by
  have hmem : ∀ c ∈ ("__".intercalate segments).toList, c.toNat < 128 ∧ ¬ c.isUpper = true := by
    intro c hc
    rw [toList_intercalate_pairs] at hc
    obtain hc | ⟨p, hp, hc⟩ := mem_of_mem_intercalate hc
    · obtain rfl : c = '_' := List.eq_of_mem_replicate (n := 2) hc
      exact ⟨by decide, by decide⟩
    · obtain ⟨s, hs, rfl⟩ := List.mem_map.1 hp
      exact ⟨(h s hs).ascii c hc, (h s hs).small c hc⟩
  rw [Text.lowered_of_lt fun c hc => (hmem c hc).1]
  exact (List.map_congr_left fun c hc => Text.toLower_of_not_isUpper (hmem c hc).2).trans (List.map_id _)

/-- Segments are separable, if none but the last ends in an underscore. -/
theorem separable_segments {segments : List String} (hne : segments ≠ []) (h : ∀ s ∈ segments, IsSegment s)
    (hapart : ∀ s ∈ segments.dropLast, s.toList.getLast? ≠ some '_') : Separable (segments.map String.toList) := by
  refine ⟨fun hnil => hne (List.map_eq_nil_iff.1 hnil), List.forall_mem_map.2 fun s hs => (h s hs).whole, ?_⟩
  rw [← List.map_dropLast]
  exact List.forall_mem_map.2 hapart

/-- **Names of key paths are unambiguous.**  Segments are given back by every name that spells them, with pairs of
underscores between them, in any letter case; a name in ASCII that is a key path is given back by it in small letters;
and the names that are none are those with an empty piece, that is the empty name and those in which some run of
underscores is hollow. -/
theorem keyPath?_unambiguous (name : String) :
    (∀ segments : List String, segments ≠ [] → (∀ s ∈ segments, IsSegment s) →
      (∀ s ∈ segments.dropLast, s.toList.getLast? ≠ some '_') → IsAscii name →
      Text.lower name = Text.lower ("__".intercalate segments) → keyPath? name = some segments) ∧
    (∀ path, IsAscii name → keyPath? name = some path → "__".intercalate path = Text.lower name) ∧
    (keyPath? name = none ↔ [] ∈ splitPairs name.toList) ∧
    (keyPath? name = none ↔ name = "" ∨ ∃ before after n, HollowRun name.toList before after n) := by
  refine ⟨fun segments hne hsegments hapart hascii hcase => ?_, fun path hascii hpath => ?_, keyPath?_eq_none_iff, ?_⟩
  · have hspelled : Text.lowered name.toList = ['_', '_'].intercalate (segments.map String.toList) := by
      rw [← toList_intercalate_pairs, ← lowered_segments hsegments]
      exact String.ofList_injective hcase
    rw [keyPath?_eq_some_iff hascii, hspelled]
    exact ⟨fun hempty => (hsegments "" hempty).ne_empty rfl,
      splitPairs_intercalate (separable_segments hne hsegments hapart)⟩
  · obtain ⟨-, hsplit⟩ := (keyPath?_eq_some_iff hascii).1 hpath
    rw [← String.toList_inj, toList_intercalate_pairs, ← hsplit, intercalate_splitPairs, Text.lower, String.toList_ofList]
  · rw [keyPath?_eq_none_iff, nil_mem_splitPairs_iff, String.toList_eq_nil_iff]

/-- A name with a run of three underscores: the segment behind it begins with one. -/
theorem underscored_segment_read_back :
    (∀ s ∈ ["a", "_b_"], IsSegment s) ∧ keyPath? "A___B_" = some ["a", "_b_"] := by
  have hsegments : ∀ s ∈ ["a", "_b_"], IsSegment s := by
    refine List.forall_mem_cons.2 ⟨⟨by decide, by decide, List.any_eq_false.1 (by decide), by decide⟩, ?_⟩
    exact List.forall_mem_singleton.2 ⟨by decide, by decide, List.any_eq_false.1 (by decide), by decide⟩
  exact ⟨hsegments, (keyPath?_unambiguous "A___B_").1 ["a", "_b_"] (List.cons_ne_nil _ _) hsegments (by decide)
    (by decide) (by decide)⟩

end Config
end PageComposer
