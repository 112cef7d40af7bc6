import Mathlib
import WorkBundle.Demo
import WorkBundle.Proofs.Building

/-!
# Judging a configuration and building from it

Settings are judged twice: once when a file is loaded (`Config.violations`, which names every rule
that is broken), and once more when something is built from them (`Bound.ofConfig`, which stops at
the first). The two go through the rules in opposite orders, and where no parallelism is given the
one has nothing to judge while the other judges the standard.

`Judged` says what both come to, side by side, for each way in which settings can be right or wrong.
All that is said about the two together is read off there. In particular a configuration that was
accepted when it was loaded can be built from.
-/

set_option autoImplicit false

namespace WorkBundle

variable {α : Type}

def Options.BlankName (o : Options) : Prop :=
  ∃ name, o.jobName = some name ∧ ∀ c ∈ name.toList, Text.isWhiteSpace c = true

namespace Options

theorem blankName_iff {o : Options} {name : String} (h : o.jobName = some name) :
    o.BlankName ↔ Text.isBlank name = true := by
  rw [BlankName, h, Text.isBlank, List.all_eq_true]
  constructor
  · rintro ⟨name', hname, hblank⟩
    cases hname
    exact hblank
  · intro hblank
    exact ⟨name, rfl, hblank⟩

theorem validate_of_blankName {o : Options} (h : o.BlankName) :
    o.validate = .error .emptyJobName := by
  have hblank := h
  obtain ⟨name, hname, -⟩ := h
  rw [validate, hname]
  exact if_pos ((blankName_iff hname).mp hblank)

theorem validate_of_not_blankName {o : Options} (h : ¬ o.BlankName) : o.validate = .ok () := by
  rw [validate]
  cases hname : o.jobName with
  | none => rfl
  | some name => exact if_neg fun hblank => h ((blankName_iff hname).mpr hblank)

end Options

/-- The configuration breaks this rule, in terms of what it says and not of the code that checks it:
a parallelism out of range, or a blank job name (`Options.BlankName`). -/
inductive Config.Breaks (c : Config) : ValidationError → Prop
  | size {n : Int} (asked : c.maxParallelism = some n) (out : ¬ InRange n) : c.Breaks (refusal n)
  | name (blank : c.options.BlankName) : c.Breaks .emptyJobName

theorem refusal_ne_emptyJobName (n : Int) : refusal n ≠ .emptyJobName := by
  rw [refusal]
  split <;> exact fun h => by cases h

/-! ## Both judgments, side by side -/

/-- The rules that are found broken, and what building comes to: the settings are right, one of the
two is wrong, or both are. Then building gets no further than the name, so it fails with the last
rule that is found. -/
inductive Judged (c : Config) (processor : Processor α) :
    List ValidationError → Except ExecutionError (Bound α × Options) → Prop
  | sound {parallelism : Parallelism} (range : ∀ n, c.maxParallelism = some n → InRange n)
      (named : ¬ c.options.BlankName) (count : (parallelism.count : Int) = c.effectiveParallelism) :
      Judged c processor [] (.ok ({ processor, parallelism }, c.options))
  | size {n : Int} (asked : c.maxParallelism = some n) (out : ¬ InRange n)
      (named : ¬ c.options.BlankName) :
      Judged c processor [refusal n] (.error (.invalidConfiguration (refusal n)))
  | name (range : ∀ n, c.maxParallelism = some n → InRange n) (blank : c.options.BlankName) :
      Judged c processor [.emptyJobName] (.error (.invalidConfiguration .emptyJobName))
  | both {n : Int} (asked : c.maxParallelism = some n) (out : ¬ InRange n)
      (blank : c.options.BlankName) :
      Judged c processor [refusal n, .emptyJobName]
        (.error (.invalidConfiguration .emptyJobName))

namespace Config

/-- The parallelism that is used lies in the range if the one that is given does: the standard does.
-/
theorem effectiveParallelism_inRange {c : Config}
    (h : ∀ n, c.maxParallelism = some n → InRange n) : InRange c.effectiveParallelism := by
  rw [effectiveParallelism]
  cases hmax : c.maxParallelism with
  | none => exact ⟨by decide, by decide⟩
  | some n => exact h n hmax

def found {β : Type} : Except ValidationError β → List ValidationError
  | .ok _ => []
  | .error rule => [rule]

/-- First what the check of the parallelism finds, then what the check of the options finds. -/
theorem violations_eq (c : Config) : c.violations =
    (c.maxParallelism.toList.flatMap fun n => found (Parallelism.ofInt n)) ++
      found c.options.validate := by
  rw [violations]
  congr 1
  · cases c.maxParallelism with
    | none => rfl
    | some n =>
      simp only [Option.toList_some, List.flatMap_singleton]
      cases Parallelism.ofInt n <;> rfl
  · cases c.options.validate <;> rfl

theorem found_size_of_inRange {c : Config} (h : ∀ n, c.maxParallelism = some n → InRange n) :
    (c.maxParallelism.toList.flatMap fun n => found (Parallelism.ofInt n)) = [] := by
  refine List.flatMap_eq_nil_iff.mpr fun n hn => ?_
  obtain ⟨p, hp, -⟩ := Parallelism.ofInt_of_inRange (h n (Option.mem_toList.mp hn))
  rw [hp, found]

theorem found_size_of_not_inRange {c : Config} {n : Int} (asked : c.maxParallelism = some n)
    (out : ¬ InRange n) :
    (c.maxParallelism.toList.flatMap fun n => found (Parallelism.ofInt n)) = [refusal n] := by
  rw [asked, Option.toList_some, List.flatMap_singleton, Parallelism.ofInt_of_not_inRange out,
    found]

theorem judged (c : Config) (processor : Processor α) :
    Judged c processor c.violations (Bound.ofConfig c processor) := by
  rw [violations_eq]
  by_cases hrange : ∀ n, c.maxParallelism = some n → InRange n
  · rw [found_size_of_inRange hrange]
    by_cases hblank : c.options.BlankName
    · rw [Bound.ofConfig, Options.validate_of_blankName hblank]
      exact .name hrange hblank
    · have hvalid := Options.validate_of_not_blankName hblank
      obtain ⟨p, hp, hcount⟩ :=
        requestParallelism_of_inRange (effectiveParallelism_inRange hrange)
      rw [Bound.ofConfig_of_valid hvalid, hvalid, hp]
      exact .sound hrange hblank hcount
  · push Not at hrange
    obtain ⟨n, asked, out⟩ := hrange
    rw [found_size_of_not_inRange asked out]
    by_cases hblank : c.options.BlankName
    · rw [Bound.ofConfig, Options.validate_of_blankName hblank]
      exact .both asked out hblank
    · have hvalid := Options.validate_of_not_blankName hblank
      have heffective : c.effectiveParallelism = n := by rw [effectiveParallelism, asked]; rfl
      rw [Bound.ofConfig_of_valid hvalid, hvalid, heffective, requestParallelism_of_not_inRange out]
      exact .size asked out hblank

end Config

namespace Judged

variable {c : Config} {processor : Processor α} {rules : List ValidationError}
  {built : Except ExecutionError (Bound α × Options)}

theorem rules_eq_nil_iff (h : Judged c processor rules built) :
    rules = [] ↔ ∃ r, built = .ok r := by
  cases h <;> simp

theorem mem_rules_iff (h : Judged c processor rules built) :
    rules.Nodup ∧ ∀ rule, rule ∈ rules ↔ c.Breaks rule := by
  cases h with
  | sound range named count =>
    refine ⟨List.nodup_nil, fun rule => ⟨nofun, ?_⟩⟩
    rintro (⟨asked, out⟩ | blank)
    · exact absurd (range _ asked) out
    · exact absurd blank named
  | @size n asked out named =>
    refine ⟨List.nodup_singleton _, fun rule => ?_⟩
    rw [List.mem_singleton]
    constructor
    · rintro rfl
      exact .size asked out
    · rintro (⟨asked', -⟩ | blank)
      · rw [Option.some.inj (asked.symm.trans asked')]
      · exact absurd blank named
  | name range blank =>
    refine ⟨List.nodup_singleton _, fun rule => ?_⟩
    rw [List.mem_singleton]
    constructor
    · rintro rfl
      exact .name blank
    · rintro (⟨asked, out⟩ | -)
      · exact absurd (range _ asked) out
      · rfl
  | @both n asked out blank =>
    refine ⟨by simpa using refusal_ne_emptyJobName n, fun rule => ?_⟩
    rw [List.mem_pair]
    constructor
    · rintro (rfl | rfl)
      · exact .size asked out
      · exact .name blank
    · rintro (⟨asked', -⟩ | -)
      · rw [Option.some.inj (asked.symm.trans asked')]
        exact Or.inl rfl
      · exact Or.inr rfl

theorem error_iff (h : Judged c processor rules built) (e : ExecutionError) :
    built = .error e ↔ ∃ rule, rules.getLast? = some rule ∧ e = .invalidConfiguration rule := by
  cases h <;> simp [eq_comm]

theorem ok (h : Judged c processor rules built) {b : Bound α} {o : Options}
    (hok : built = .ok (b, o)) :
    b.processor = processor ∧ (b.parallelism.count : Int) = c.effectiveParallelism ∧
      o = c.options := by
  cases h with
  | sound range named count =>
    cases hok
    exact ⟨rfl, count, rfl⟩
  | size | name | both => cases hok

end Judged

/-- A configuration that was accepted when it was loaded breaks no rule, so binding a processor as
it asks cannot fail. -/
theorem Config.violations_of_loadValid {path : String} {stored : Stored} {c : Config}
    (h : (Config.loadValid path stored).1 = .ok c) : c.violations = [] := by
  rw [Config.loadValid] at h
  cases hload : Config.load path stored with
  | error e =>
    rw [hload] at h
    cases h
  | ok config =>
    cases hrules : config.violations with
    | nil =>
      simp only [hload, hrules] at h
      cases h
      exact hrules
    | cons rule rules =>
      simp only [hload, hrules] at h
      cases h

/-- **Judging foretells building.** Whatever the settings are, no rule is found broken just when a
processor, any processor, can be bound as they ask. The rules that are found are those that are
broken, each one once; and binding fails with the last of them. If it succeeds, the options are
handed on, and the parallelism, also that of every engine however it runs, is the one that was asked
for, or sixteen. So nothing that was accepted when it was loaded, and no empty configuration, can
fail to be built later on. -/
theorem violations_foretell_building (c : Config) (processor : Processor α) :
    (c.violations = [] ↔ ∃ built, Bound.ofConfig c processor = .ok built) ∧
    (c.violations.Nodup ∧ ∀ rule, rule ∈ c.violations ↔ c.Breaks rule) ∧
    (∀ e, Bound.ofConfig c processor = .error e ↔
      ∃ rule, c.violations.getLast? = some rule ∧ e = .invalidConfiguration rule) ∧
    (∀ b o, Bound.ofConfig c processor = .ok (b, o) →
      b.processor = processor ∧ o = c.options ∧
        (b.parallelism.count : Int) = c.effectiveParallelism ∧
        c.effectiveParallelism = c.maxParallelism.getD 16 ∧
        ∀ backend intake scope moves m, (b.engine backend intake scope).run moves = some m →
          m.setup.parallelism = b.parallelism ∧ m.gate.capacity = b.parallelism) ∧
    (∀ path stored, (Config.loadValid path stored).1 = .ok c →
      ∃ bound, Bound.ofConfig c (Demo.enriching (Demo.latency c.options)).processor =
        .ok (bound, c.options)) ∧
    ∃ bound, Bound.ofConfig {} (Demo.enriching (Demo.latency {})).processor = .ok (bound, {}) := by
  have hbuilds {c : Config} (hrules : c.violations = []) (p : Processor String) :
      ∃ bound, Bound.ofConfig c p = .ok (bound, c.options) := by
    obtain ⟨⟨bound, options⟩, hok⟩ := (c.judged p).rules_eq_nil_iff.mp hrules
    rw [hok, ((c.judged p).ok hok).2.2]
    exact ⟨bound, rfl⟩
  have hj := c.judged processor
  refine ⟨hj.rules_eq_nil_iff, hj.mem_rules_iff, hj.error_iff, fun b o hok => ?_, ?_, ?_⟩
  · obtain ⟨hprocessor, hcount, hoptions⟩ := hj.ok hok
    refine ⟨hprocessor, hoptions, hcount, rfl, fun backend intake scope moves m hrun => ?_⟩
    rw [Machine.setup_run hrun, Machine.capacity_run hrun]
    exact ⟨rfl, rfl⟩
  · exact fun path stored hload => hbuilds (Config.violations_of_loadValid hload) _
  · exact hbuilds rfl _

/-- An empty file of whatever format says nothing. -/
theorem Config.load_empty (path : String) : Config.load path (.file "".toUTF8) = .ok {} := by
  have htext : (Stored.file "".toUTF8).text = .ok "" := rfl
  have hyaml : Yaml.config? "" = some {} := by cbv
  have htoml : Toml.config? "" = some {} := rfl
  rw [Config.load, htext]
  show Config.parse (.ofPath path) "" = .ok {}
  cases ConfigFormat.ofPath path with
  | yaml =>
    rw [Config.parse, hyaml]
    rfl
  | toml =>
    rw [Config.parse, htoml]
    rfl

/-- Both rules are broken, the one on the name by two kinds of white space: both are found, and
building fails with the second. An empty file is accepted, and the demonstration builds from it. -/
theorem violations_foretell_building_both_ways :
    let wrong : Config := { maxParallelism := some 0, options := { jobName := some "  " } }
    let processor : Processor Nat := { name := "demo" }
    wrong.violations = [.nonPositiveParallelism 0, .emptyJobName] ∧
      wrong.Breaks (.nonPositiveParallelism 0) ∧ wrong.Breaks .emptyJobName ∧
      Bound.ofConfig wrong processor = .error (.invalidConfiguration .emptyJobName) ∧
      (Config.loadValid "bundle.yaml" (.file "".toUTF8)).1 = .ok {} ∧
      ∃ bound, Bound.ofConfig {} (Demo.enriching (Demo.latency {})).processor =
        .ok (bound, {}) := by
  intro wrong processor
  obtain ⟨-, ⟨-, hbreaks⟩, herror, -⟩ := violations_foretell_building wrong processor
  have hrules : wrong.violations = [.nonPositiveParallelism 0, .emptyJobName] := by decide +kernel
  have hload : (Config.loadValid "bundle.yaml" (.file "".toUTF8)).1 = .ok {} := by
    rw [Config.loadValid, Config.load_empty]
    rfl
  obtain ⟨-, -, -, -, hloaded, -⟩ := violations_foretell_building {} processor
  refine ⟨hrules, (hbreaks _).mp ?_, (hbreaks _).mp ?_, (herror _).mpr ⟨.emptyJobName, ?_, rfl⟩,
    hload, hloaded _ _ hload⟩
  all_goals simp [hrules]

end WorkBundle
