/-
# Settings that are checked

Settings without complaints are those of the documented form (`complaints_eq_none_iff`).

| section | setting | value |
| --- | --- | --- |
| `composition` | `root`, `pages_dir`, `out_dir`, `encoding` | text that is not empty |
| | `empty_out_dir` | truth value |
| | `max_depth` | integer from 1 on, also one that is written as a decimal |
| `logging` | `level` | one of five names, in capitals or small letters |
| | `file` | text or null |

Either section, and each setting in it, may be absent; no others may be there. Every setting of such settings can be
used (`Serviceable`): what is absent counts as the bundled settings say.
-/

import PageComposer.Proofs.Config.Transparency
import PageComposer.Proofs.Value.Keys

namespace PageComposer

/-! ### Whole decimals -/

namespace Decimal
namespace Binary64

/-- An integer in units of which at least `unit` make one is below that many only if it is none. -/
theorem scaled_lt_iff {unit one : Nat} (hunit : 0 < unit) (hone : unit ≤ one) (negative : Bool) (q : Nat) :
    (if negative then -1 else 1) * ((q * one : Nat) : Int) < 1 * (unit : Int) ↔
      ¬1 ≤ (if negative then -(q : Int) else q) := by
  cases negative with
  | false =>
    rw [if_neg Bool.false_ne_true, if_neg Bool.false_ne_true, Int.one_mul, Int.one_mul]
    rcases Nat.eq_zero_or_pos q with rfl | hq
    · omega
    · have hmore : one ≤ q * one := Nat.le_mul_of_pos_left one hq
      omega
  | true =>
    rw [if_pos rfl, if_pos rfl]
    omega

/-- The units of a whole number are a multiple of those of one, or of more. -/
theorem units_of_toInt? {negative : Bool} {m : Nat} {e n : Int} (h : (Binary64.finite negative m e).toInt? = some n) :
    ∃ q t : Nat, 1074 ≤ t ∧ units m e = q * 2 ^ t ∧ n = if negative then -(q : Int) else q := by
  rw [toInt?] at h
  dsimp only at h
  split at h
  · rename_i he
    refine ⟨m * 2 ^ e.toNat, (1074 : Int).toNat, by decide, ?_, (Option.some.inj h).symm⟩
    rw [units, Int.toNat_add he (by decide), Nat.pow_add, Nat.mul_assoc]
  · split at h
    · rename_i he hdvd
      have hm : m = m / 2 ^ (-e).toNat * 2 ^ (-e).toNat :=
        (Nat.div_mul_cancel (Nat.dvd_of_mod_eq_zero (eq_of_beq hdvd))).symm
      refine ⟨m / 2 ^ (-e).toNat, (-e).toNat + (e + 1074).toNat, by omega, ?_, (Option.some.inj h).symm⟩
      rw [units, Nat.pow_add, ← Nat.mul_assoc, ← hm]
    · cases h

/-- **A whole number is not below one exactly if its integer is not.** -/
theorem isBelow_one {x : Binary64} {n : Int} (h : x.toInt? = some n) : x.isBelow 1 = false ↔ 1 ≤ n := by
  cases x with
  | finite negative m e =>
    obtain ⟨q, t, ht, hunits, rfl⟩ := units_of_toInt? h
    have hpos (power : Nat) : 0 < 2 ^ power := Nat.two_pow_pos power
    have hmono {a b : Nat} (h : a ≤ b) : 2 ^ a ≤ 2 ^ b := Nat.pow_le_pow_right (by decide) h
    rw [isBelow, hunits, decide_eq_false_iff_not, scaled_lt_iff (hpos 1074) (hmono ht), Decidable.not_not]
  | infinite | nan => cases h

end Binary64
end Decimal

namespace Config

/-! ### Schemas -/

namespace Schema

theorem kindComplaint_eq_nil {kinds : List Kind} {v : Value} :
    kindComplaint kinds v = [] ↔ ∃ k ∈ kinds, k.holds v = true := by
  unfold kindComplaint
  split
  · rename_i h
    exact iff_of_true rfl (List.any_eq_true.1 h)
  · rename_i h
    exact iff_of_false (List.cons_ne_nil _ _) fun hk => h (List.any_eq_true.2 hk)

theorem extraComplaint_eq_nil {known : List String} {es : Entries} :
    extraComplaint known es = [] ↔ ∀ key ∈ Entries.keys es, ∃ name ∈ known, key = .text name := by
  unfold extraComplaint
  dsimp only
  rw [ite_eq_left_iff, List.isEmpty_iff, List.filter_eq_nil_iff]
  simp only [List.cons_ne_nil, imp_false, Decidable.not_not]
  refine forall₂_congr fun key _ => ?_
  cases key <;> simp

/-- A leaf has no complaint about a value of one of its kinds within its limits. -/
theorem check_leaf {kinds : List Kind} {limits : List Limit} {v : Value} :
    check (.leaf kinds limits) v = [] ↔ (∃ k ∈ kinds, k.holds v = true) ∧ ∀ l ∈ limits, l.holds v = true := by
  rw [check, List.append_eq_nil_iff, kindComplaint_eq_nil, List.map_eq_nil_iff, List.filter_eq_nil_iff]
  simp

theorem checkFields_eq_nil {fields : List (String × Schema)} {es : Entries} :
    checkFields fields es = [] ↔ ∀ f ∈ fields, ∀ v, Entries.at? es f.1 = some v → check f.2 v = [] := by
  induction fields with
  | nil => simp [checkFields]
  | cons f rest ih =>
    rw [checkFields, List.append_eq_nil_iff, ih, List.forall_mem_cons]
    refine and_congr_left fun _ => ?_
    cases Entries.at? es f.1 with
    | none => simp
    | some v => simp

/-- A record has no complaint about a map with known keys and without complaints about what is at them. -/
theorem check_record {closed : Bool} {fields : List (String × Schema)} {v : Value} :
    check (.record closed fields) v = [] ↔ ∃ es, v = .map es ∧
      (closed = true → ∀ key ∈ Entries.keys es, ∃ name ∈ fields.map (·.1), key = .text name) ∧
      ∀ f ∈ fields, ∀ w, Entries.at? es f.1 = some w → check f.2 w = [] := by
  cases v with
  | map es =>
    rw [check, List.append_eq_nil_iff, checkFields_eq_nil]
    have hclosed : (if closed = true then extraComplaint (fields.map (·.1)) es else []) = [] ↔
        (closed = true → ∀ key ∈ Entries.keys es, ∃ name ∈ fields.map (·.1), key = .text name) := by
      cases closed with
      | false => simp
      | true => simp only [if_true, extraComplaint_eq_nil, forall_const]
    rw [hclosed]
    constructor
    · exact fun h => ⟨es, rfl, h⟩
    · rintro ⟨_, ⟨⟩, h⟩
      exact h
  | _ =>
    rw [check]
    · refine iff_of_false ?_ ?_
      · intro h
        obtain ⟨k, hk, hholds⟩ := kindComplaint_eq_nil.1 h
        obtain rfl := List.mem_singleton.1 hk
        cases hholds
      · rintro ⟨_, ⟨⟩, _⟩
    · rintro _ ⟨⟩

end Schema

theorem complaints_eq_none {v : Value} : complaints v = none ↔ Schema.settings.check v = [] := by
  have hsorted : Complaint.sorted (Schema.settings.check v) = [] ↔ Schema.settings.check v = [] := by
    rw [Complaint.sorted, ← List.length_eq_zero_iff, List.length_mergeSort, List.length_eq_zero_iff]
  rw [← hsorted]
  unfold complaints
  split
  · rename_i h
    exact iff_of_true rfl h
  · rename_i h
    exact iff_of_false nofun h

/-! ### Documented settings -/

/-- The levels of logging. -/
def levels : List String := ["DEBUG", "INFO", "WARNING", "ERROR", "CRITICAL"]

/-- The same in small letters. -/
def smallLevels : List String := ["debug", "info", "warning", "error", "critical"]

/-- The values that a setting of composition may have. -/
def CompositionSetting : String → Value → Prop
  | "root", v | "pages_dir", v | "out_dir", v | "encoding", v => ∃ text, v = .text text ∧ text ≠ ""
  | "empty_out_dir", v => ∃ b, v = .bool b
  | "max_depth", v => ∃ n : Int, 1 ≤ n ∧ (v = .int n ∨ ∃ x, v = .float x ∧ x.toInt? = some n)
  | _, _ => False

/-- The values that a setting of logging may have. -/
def LogSetting : String → Value → Prop
  | "level", v => ∃ text ∈ levels ++ smallLevels, v = .text text
  | "file", v => v = .null ∨ ∃ text, v = .text text
  | _, _ => False

/-- A section with some settings, and no others. -/
def IsSection (names : List String) (setting : String → Value → Prop) (v : Value) : Prop :=
  ∃ es, v = .map es ∧ (∀ key ∈ Entries.keys es, ∃ name ∈ names, key = .text name) ∧
    ∀ name ∈ names, ∀ w, Entries.at? es name = some w → setting name w

/-- The names of the settings of composition. -/
def compositionNames : List String := ["root", "pages_dir", "out_dir", "empty_out_dir", "encoding", "max_depth"]

/-- The names of the settings of logging. -/
def logNames : List String := ["level", "file"]

/-- Settings as they are documented. -/
def Documented (v : Value) : Prop :=
  ∃ es, v = .map es ∧
    (∀ w, Entries.at? es "composition" = some w → IsSection compositionNames CompositionSetting w) ∧
    ∀ w, Entries.at? es "logging" = some w → IsSection logNames LogSetting w

/-! ### Each setting -/

namespace Schema

/-- A closed record has no complaint about a section of which each setting has the value that its schema accepts. -/
theorem check_section {fields : List (String × Schema)} {setting : String → Value → Prop}
    (h : ∀ f ∈ fields, ∀ w, check f.2 w = [] ↔ setting f.1 w) {v : Value} :
    check (.record true fields) v = [] ↔ IsSection (fields.map (·.1)) setting v := by
  have hsettings (es : Entries) : (∀ f ∈ fields, ∀ w, Entries.at? es f.1 = some w → check f.2 w = []) ↔
      ∀ name ∈ fields.map (·.1), ∀ w, Entries.at? es name = some w → setting name w := by
    rw [List.forall_mem_map]
    exact forall₂_congr fun f hf => forall_congr' fun w => imp_congr_right fun _ => h f hf w
  rw [check_record, IsSection]
  exact exists_congr fun es => and_congr_right fun _ => and_congr (by simp) (hsettings es)

theorem check_someText (v : Value) : check someText v = [] ↔ ∃ text, v = .text text ∧ text ≠ "" := by
  rw [someText, check_leaf]
  cases v <;> simp [Kind.holds, Limit.holds]

theorem check_truth (v : Value) : check (.leaf [.bool] []) v = [] ↔ ∃ b, v = .bool b := by
  rw [check_leaf]
  cases v <;> simp [Kind.holds]

theorem check_depth (v : Value) : check (.leaf [.int] [.atLeast 1]) v = [] ↔
    ∃ n : Int, 1 ≤ n ∧ (v = .int n ∨ ∃ x, v = .float x ∧ x.toInt? = some n) := by
  rw [check_leaf]
  cases v with
  | int n => simp [Kind.holds, Limit.holds]
  | float x =>
    cases hx : x.toInt? with
    | none => simp [Kind.holds, hx]
    | some n => simp [Kind.holds, Limit.holds, hx, Decimal.Binary64.isBelow_one hx]
  | _ => simp [Kind.holds]

theorem check_level (v : Value) : check (.leaf [.text] [.oneOf (levels ++ smallLevels)]) v = [] ↔
    ∃ text ∈ levels ++ smallLevels, v = .text text := by
  rw [check_leaf]
  cases v with
  | text t =>
    have hlimit : (Limit.oneOf (levels ++ smallLevels)).holds (.text t) = true ↔ t ∈ levels ++ smallLevels :=
      List.contains_iff_mem
    simp [Kind.holds, hlimit]
  | _ => simp [Kind.holds]

theorem check_file (v : Value) : check (.leaf [.text, .null] []) v = [] ↔ v = .null ∨ ∃ text, v = .text text := by
  rw [check_leaf]
  cases v <;> simp [Kind.holds]

end Schema

/-- **Settings without complaints are the documented ones.** -/
theorem complaints_eq_none_iff {v : Value} : complaints v = none ↔ Documented v := by
  have hcomposition {w : Value} : Schema.check (.record true
      [("root", Schema.someText), ("pages_dir", Schema.someText), ("out_dir", Schema.someText),
        ("empty_out_dir", .leaf [.bool] []), ("encoding", Schema.someText),
        ("max_depth", .leaf [.int] [.atLeast 1])]) w = [] ↔ IsSection compositionNames CompositionSetting w := by
    refine Schema.check_section ?_
    simp only [List.forall_mem_cons]
    exact ⟨Schema.check_someText, Schema.check_someText, Schema.check_someText, Schema.check_truth,
      Schema.check_someText, Schema.check_depth, nofun⟩
  have hlogging {w : Value} : Schema.check (.record true
      [("level", .leaf [.text] [.oneOf (levels ++ smallLevels)]), ("file", .leaf [.text, .null] [])]) w = [] ↔
        IsSection logNames LogSetting w := by
    refine Schema.check_section ?_
    simp only [List.forall_mem_cons]
    exact ⟨Schema.check_level, Schema.check_file, nofun⟩
  rw [complaints_eq_none, Schema.settings, Schema.check_record, Documented]
  refine exists_congr fun es => and_congr_right fun _ => ?_
  constructor
  · rintro ⟨-, h⟩
    exact ⟨fun w hw => hcomposition.1 (h _ (List.mem_cons_self ..) w hw),
      fun w hw => hlogging.1 (h _ (List.mem_cons_of_mem _ (List.mem_cons_self ..)) w hw)⟩
  · rintro ⟨hc, hl⟩
    exact ⟨nofun, List.forall_mem_cons.2 ⟨fun w hw => hcomposition.2 (hc w hw),
      List.forall_mem_singleton.2 fun w hw => hlogging.2 (hl w hw)⟩⟩

/-! ### Settings in use -/

/-- A setting of composition as a value. -/
def Composition.setting? (c : Composition) : String → Option Value
  | "root" => some (.text c.root)
  | "pages_dir" => some (.text c.pagesDir)
  | "out_dir" => some (.text c.outDir)
  | "empty_out_dir" => some (.bool c.emptyOutDir)
  | "encoding" => some (.text c.encoding)
  | "max_depth" => some (.int c.maxDepth)
  | _ => none

/-- A setting of logging as a value. -/
def LogSettings.setting? (l : LogSettings) : String → Option Value
  | "level" => some (.text l.level)
  | "file" => some ((l.file.map Value.text).getD .null)
  | _ => none

/-- A setting that is in use, by its section and name. -/
def inUse? (project : Path) (es : Entries) : String → String → Option Value
  | "composition", name => (Composition.ofSettings project es).setting? name
  | "logging", name => (LogSettings.ofSettings project es).setting? name
  | _, _ => none

/-- Settings that can be used, and that count as the bundled ones where they are absent. -/
structure Serviceable (project : Path) (es : Entries) : Prop where
  maxDepth : 1 ≤ (Composition.ofSettings project es).maxDepth
  encoding : (Composition.ofSettings project es).encoding ≠ ""
  emptyOutDir : ∀ v, Entries.at? (sectionOf es "composition") "empty_out_dir" = some v →
    v = .bool (Composition.ofSettings project es).emptyOutDir
  level : (LogSettings.ofSettings project es).level ∈ levels
  absent : ∀ key name v, Entries.at? (sectionOf es key) name = none →
    Entries.at? (sectionOf defaults key) name = some v → inUse? project es key name = some v

variable {es : Entries}

theorem IsSection.setting {names : List String} {setting : String → Value → Prop} {key name : String}
    (h : ∀ w, Entries.at? es key = some w → IsSection names setting w) (hname : name ∈ names) {v : Value}
    (hv : Entries.at? (sectionOf es key) name = some v) : setting name v := by
  unfold sectionOf at hv
  cases hw : Entries.at? es key with
  | none =>
    rw [hw] at hv
    cases hv
  | some w =>
    obtain ⟨es', rfl, -, hsettings⟩ := h w hw
    rw [hw] at hv
    exact hsettings name hname v hv

/-- A documented depth is an integer, however it is written. -/
theorem integerOf?_of_setting {v : Value} (h : CompositionSetting "max_depth" v) :
    ∃ n, integerOf? v = some n ∧ 1 ≤ n := by
  obtain ⟨n, hpositive, rfl | ⟨x, rfl, hx⟩⟩ := h
  · exact ⟨n, rfl, hpositive⟩
  · exact ⟨n, hx, hpositive⟩

theorem mem_of_mapOf {fields : List (String × Value)} {name : String} {v : Value}
    (h : Entries.at? (Entries.within (some (mapOf fields))) name = some v) : (name, v) ∈ fields := by
  obtain ⟨k, hmem, hkey⟩ := Entries.exists_of_get?_eq_some h
  obtain ⟨f, hf, heq⟩ := List.mem_map.1 hmem
  obtain ⟨rfl, rfl⟩ := Prod.mk.inj heq
  rw [Value.sameKey_text, beq_iff_eq] at hkey
  exact hkey ▸ hf

/-- **What is absent counts as the bundled settings say.** -/
theorem inUse?_of_absent (project : Path) {key name : String} {v : Value}
    (habsent : Entries.at? (sectionOf es key) name = none)
    (hv : Entries.at? (sectionOf defaults key) name = some v) : inUse? project es key name = some v := by
  simp only [sectionOf, defaults, Entries.at?, Entries.get?_cons, Entries.get?_nil] at hv
  split at hv
  · rename_i hkey
    obtain rfl := eq_of_beq hkey
    have hmem := mem_of_mapOf hv
    simp only [List.mem_cons, Prod.mk.injEq, List.not_mem_nil, or_false] at hmem
    rcases hmem with ⟨rfl, rfl⟩ | ⟨rfl, rfl⟩ | ⟨rfl, rfl⟩ | ⟨rfl, rfl⟩ | ⟨rfl, rfl⟩ | ⟨rfl, rfl⟩
    all_goals simp [inUse?, Composition.setting?, Composition.ofSettings, textAt, habsent]
  · split at hv
    · rename_i hkey
      obtain rfl := eq_of_beq hkey
      have hmem := mem_of_mapOf hv
      simp only [List.mem_cons, Prod.mk.injEq, List.not_mem_nil, or_false] at hmem
      rcases hmem with ⟨rfl, rfl⟩ | ⟨rfl, rfl⟩
      · have hcapitals : Text.upperAscii "WARNING" = "WARNING" := by decide
        simp [inUse?, LogSettings.setting?, LogSettings.ofSettings, habsent, hcapitals]
      · simp [inUse?, LogSettings.setting?, LogSettings.ofSettings, habsent]
    · cases hv

/-- **Documented settings can be used.** -/
theorem Documented.serviceable (h : Documented (.map es)) (project : Path) : Serviceable project es := by
  obtain ⟨es', heq, hcomposition, hlogging⟩ := h
  obtain rfl := Value.map.inj heq
  refine ⟨?_, ?_, fun v hv => ?_, ?_, fun key name v => inUse?_of_absent project⟩
  · rw [Composition.ofSettings]
    dsimp only
    cases hv : Entries.at? (sectionOf es "composition") "max_depth" with
    | none => decide
    | some v =>
      obtain ⟨n, hn, hpositive⟩ := integerOf?_of_setting (IsSection.setting hcomposition (by decide) hv)
      rw [Option.bind_some, hn]
      exact hpositive
  · rw [Composition.ofSettings]
    dsimp only [textAt]
    cases hv : Entries.at? (sectionOf es "composition") "encoding" with
    | none => decide
    | some v =>
      obtain ⟨t, rfl, hsome⟩ := IsSection.setting hcomposition (by decide) hv
      exact hsome
  · obtain ⟨b, rfl⟩ := IsSection.setting hcomposition (by decide) hv
    rw [Composition.ofSettings]
    dsimp only
    rw [hv]
    rfl
  · have hlevel : ∀ t ∈ levels ++ smallLevels, t ≠ "" ∧ Text.upperAscii t ∈ levels := by decide
    rw [LogSettings.ofSettings]
    dsimp only
    cases hv : Entries.at? (sectionOf es "logging") "level" with
    | none => decide
    | some v =>
      obtain ⟨t, ht, rfl⟩ := IsSection.setting hlogging (by decide) hv
      obtain ⟨hsome, hupper⟩ := hlevel t ht
      have hpresent : LogSettings.present? (.text t) = some t := if_pos (bne_iff_ne.2 hsome)
      rw [Option.bind_some, hpresent]
      exact hupper

/-! ### Settings that are loaded -/

/-- Settings that are loaded with a check are documented. -/
theorem documented_of_loadSettings {w : FileTree} {vars : Variables} {root : Path}
    (h : (loadSettings w vars root true).settings = .ok es) : Documented (.map es) := by
  unfold loadSettings at h
  split at h
  · cases h
  · dsimp only at h
    split at h
    · cases h
    · rw [if_pos rfl, checked] at h
      split at h
      · rename_i hnone
        obtain rfl := Except.ok.inj h
        exact complaints_eq_none_iff.1 hnone
      · cases h

/-- Settings that are kept have been loaded with the check that they are asked for with. -/
theorem Cache.documented_of_get {past : List FileTree} {c : Cache} {w : FileTree} {s : Surroundings} {root : Option Path}
    (hc : c.LoadedIn past) (h : (c.get w s root true).1.settings = .ok es) : Documented (.map es) := by
  rw [get] at h
  cases hk : Key.of w s root true with
  | error f =>
    rw [hk] at h
    cases h
  | ok k =>
    rw [hk] at h
    dsimp only at h
    cases hl : c.lookup k with
    | some kept =>
      rw [hl] at h
      obtain rfl := Except.ok.inj h
      obtain ⟨w', -, vars, -, -, hload⟩ := hc k _ (mem_of_lookup hl)
      rw [(Key.of_eq_ok hk).2.1] at hload
      exact documented_of_loadSettings hload
    | none =>
      rw [hl] at h
      dsimp only at h
      split at h
      · exact documented_of_loadSettings h
      · exact documented_of_loadSettings h

/-- At every moment of a process all that is kept has been loaded. -/
theorem Process.exists_loadedIn {q : Process} {steps : List Step} {past : List FileTree} (h : q.cache.LoadedIn past) :
    ∀ stage ∈ q.stages steps, ∃ past', stage.1.cache.LoadedIn past' := by
  induction steps generalizing q past with
  | nil => nofun
  | cons step rest ih => exact List.forall_mem_cons.2 ⟨⟨past, h⟩, ih (loadedIn_next h step)⟩

/-- **The check accepts the documented settings, and whatever is loaded with it can be used**, at every moment of a
process that keeps what it loads. -/
theorem checked_settings_usable :
    (∀ v, complaints v = none ↔ Documented v) ∧
    (∀ es, complaints (.map es) = none → ∀ project, Serviceable project es) ∧
    (∀ w vars root es, (loadSettings w vars root true).settings = .ok es → ∀ project, Serviceable project es) ∧
    ∀ tree around steps, ∀ stage ∈ Process.stages ⟨tree, around, []⟩ steps, ∀ root es,
      (stage.1.cache.get stage.1.tree stage.1.around root true).1.settings = .ok es →
        ∀ project, Serviceable project es := by
  refine ⟨fun v => complaints_eq_none_iff, fun es h => (complaints_eq_none_iff.1 h).serviceable,
    fun w vars root es h => (documented_of_loadSettings h).serviceable, fun tree around steps stage hstage root es h => ?_⟩
  obtain ⟨past, hpast⟩ := Process.exists_loadedIn (Cache.loadedIn_nil []) stage hstage
  exact (Cache.documented_of_get hpast h).serviceable

/-- A section that a variable has emptied counts as the bundled one. -/
example : ((loadSettings (FileTree.ofEntries []) [("HTMLCOMPOSE_COMPOSITION", "\x7b\x7d")] (Path.ofString "/")
    true).settings.toOption.map fun es =>
      ((Entries.keys (sectionOf es "composition")).length, Composition.ofSettings (Path.ofString "/") es)) =
        some (0, { project := Path.ofString "/" }) := by
  decide +kernel

end Config
end PageComposer
