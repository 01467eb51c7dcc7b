import Mathlib.Logic.Basic
import SpecLinkage.Policy.Basic

/-! # The gate

When the creation of a file is refused.  A file is refused in strict mode if it is code without a
valid tag, or if one of its tags refers to a spec without a document; each such spec is reported
once, where it occurs first.  A file that has been modified is never refused.

* `Policy.firstPerSpec_eq`: the loop that reports each spec once, without the loop.
* `Policy.mem_checkSpecless_iff`, `Policy.mem_checkSpecs`: the violations before creation.
* `Policy.exists_of_mem_beforeCreation`, `Policy.exists_of_mem_afterModification`: the kinds of
  violations in both reports; nothing is critical after modification.
* `Violation.fits_new`, `Violation.Fits.withFix`: what a violation says fits, however it is made.
* `Policy.Gate` says what both reports say, and `Policy.gate` that they always do. -/

namespace SpecLinkage

/-! ## Each spec once -/

/-- The specs that tags refer to, each once, in the order in which they occur first. -/
def specsOf (tags : List Tag) : List SpecId := (tags.map Tag.specId).eraseDups

theorem mem_specsOf {tags : List Tag} {id : SpecId} :
    id ∈ specsOf tags ↔ ∃ t ∈ tags, t.specId = id := by
  rw [specsOf, List.mem_eraseDups, List.mem_map]

namespace Policy

theorem map_firstPerSpec (seen : List SpecId) (tags : List Tag) :
    (firstPerSpec seen tags).map Tag.specId =
      ((tags.map Tag.specId).filter fun id => id ∉ seen).eraseDups := by
  induction tags generalizing seen with
  | nil => rfl
  | cons t tags ih =>
    rw [firstPerSpec, List.map_cons]
    by_cases h : t.specId ∈ seen
    · rw [if_pos h, ih, List.filter_cons_of_neg (by simpa using h)]
    · rw [if_neg h, List.map_cons, ih, List.filter_cons_of_pos (by simpa using h),
        List.eraseDups_cons, List.filter_filter]
      congr 2
      apply List.filter_congr
      intro id _
      by_cases hid : id = t.specId <;> simp [hid]

theorem notMem_of_mem_firstPerSpec {seen : List SpecId} {tags : List Tag} {t : Tag}
    (h : t ∈ firstPerSpec seen tags) : t.specId ∉ seen := by
  have hid : t.specId ∈ (firstPerSpec seen tags).map Tag.specId := List.mem_map_of_mem h
  rw [map_firstPerSpec, List.mem_eraseDups, List.mem_filter, decide_eq_true_eq] at hid
  exact hid.2

/-- What is taken for a spec is the first tag that refers to it. -/
theorem find?_of_mem_firstPerSpec {seen : List SpecId} {tags : List Tag} {t : Tag}
    (h : t ∈ firstPerSpec seen tags) : (tags.find? fun t' => t'.specId == t.specId) = some t := by
  induction tags generalizing seen with
  | nil => cases h
  | cons t' tags ih =>
    have hnew := notMem_of_mem_firstPerSpec h
    rw [firstPerSpec] at h
    by_cases hseen : t'.specId ∈ seen
    · rw [if_pos hseen] at h
      have hne : t'.specId ≠ t.specId := fun heq => hnew (heq ▸ hseen)
      rw [List.find?_cons_of_neg (by simpa using hne)]
      exact ih h
    · rw [if_neg hseen] at h
      rcases List.mem_cons.1 h with rfl | h
      · exact List.find?_cons_of_pos (beq_self_eq_true _)
      · have hne : t'.specId ≠ t.specId := fun heq =>
          notMem_of_mem_firstPerSpec h (heq ▸ List.mem_cons_self)
        rw [List.find?_cons_of_neg (by simpa using hne)]
        exact ih h

theorem map_specId_firstPerSpec (tags : List Tag) :
    (firstPerSpec [] tags).map Tag.specId = specsOf tags := by
  rw [map_firstPerSpec, specsOf, List.filter_eq_self.2 fun id _ => by simp]

/-- What is made of the first tags of some specs, without the loop. -/
theorem map_filter_firstPerSpec {β : Type} {f : Tag → β} {g : SpecId → Option Tag → β}
    (hg : ∀ t, g t.specId (some t) = f t) (keep : SpecId → Bool) (tags : List Tag) :
    ((firstPerSpec [] tags).filter fun t => keep t.specId).map f =
      ((specsOf tags).filter keep).map fun id => g id (tags.find? fun t => t.specId == id) := by
  rw [← map_specId_firstPerSpec, List.filter_map, List.map_map]
  apply List.map_congr_left
  intro t ht
  show f t = g t.specId (tags.find? fun t' => t'.specId == t.specId)
  rw [find?_of_mem_firstPerSpec (List.mem_filter.1 ht).1, hg]

theorem mem_of_mem_firstPerSpec {tags : List Tag} {t : Tag} (h : t ∈ firstPerSpec [] tags) :
    t ∈ tags :=
  List.mem_of_find?_eq_some (find?_of_mem_firstPerSpec h)

/-! ## Before creation -/

variable (p : Policy) (files : FileTree) (r : Records) (path content : String)

theorem mem_checkSpecless_iff {tags : List Tag} {v : Violation} :
    v ∈ p.checkSpecless path tags ↔
      v = speclessViolation path ∧ tags = [] ∧ p.codePaths.isCode path = true := by
  rw [checkSpecless]
  split
  · next h =>
    rw [Bool.and_eq_true, List.isEmpty_iff] at h
    rw [List.mem_singleton]
    exact (and_iff_left h).symm
  · next h =>
    rw [Bool.and_eq_true, List.isEmpty_iff] at h
    exact ⟨by rintro ⟨⟩, fun hv => absurd hv.2 h⟩

/-- The violations of specs without a document. -/
theorem exists_of_mem_checkSpecs {tags : List Tag} {v : Violation}
    (h : v ∈ p.checkSpecs files r path tags) :
    ∃ t ∈ tags, p.catalog.contains files t.specId.text = false ∧
      v = missingSpecViolation path t (r.locations t.specId.text).length
        (p.catalog.expectedPath t.specId.text) := by
  obtain ⟨t, ht, rfl⟩ := List.mem_map.1 h
  obtain ⟨ht, habsent⟩ := List.mem_filter.1 ht
  exact ⟨t, mem_of_mem_firstPerSpec ht, by simpa using habsent, rfl⟩

/-- Where and for which specs a document is missing. -/
theorem map_checkSpecs (tags : List Tag) :
    (p.checkSpecs files r path tags).map (fun v => (v.specId, v.line)) =
      ((specsOf tags).filter fun id => !p.catalog.contains files id.text).map fun id =>
        (some id.text, (tags.find? fun t => t.specId == id).map Tag.line) := by
  rw [checkSpecs, List.map_map]
  exact map_filter_firstPerSpec (g := fun id t? => (some id.text, t?.map Tag.line))
    (fun _ => rfl) (fun id => !p.catalog.contains files id.text) tags

theorem checkSpecs_eq_nil_iff (tags : List Tag) :
    p.checkSpecs files r path tags = [] ↔
      ∀ t ∈ tags, p.catalog.contains files t.specId.text = true := by
  rw [← List.map_eq_nil_iff (f := fun v : Violation => (v.specId, v.line)), map_checkSpecs,
    List.map_eq_nil_iff, List.filter_eq_nil_iff]
  constructor
  · intro h t ht
    simpa using h t.specId (mem_specsOf.2 ⟨t, ht, rfl⟩)
  · intro h id hid
    obtain ⟨t, ht, rfl⟩ := mem_specsOf.1 hid
    simpa using h t ht

/-- A file without tags refers to no spec, so the violations are all of one kind. -/
theorem checkSpecless_or_checkSpecs (tags : List Tag) :
    p.checkSpecless path tags ++ p.checkSpecs files r path tags = p.checkSpecless path tags ∨
      p.checkSpecless path tags ++ p.checkSpecs files r path tags =
        p.checkSpecs files r path tags := by
  cases tags with
  | nil =>
    have hnone : p.checkSpecs files r path [] = [] := rfl
    rw [hnone]
    exact .inl (List.append_nil _)
  | cons t tags =>
    have hnone : p.checkSpecless path (t :: tags) = [] := rfl
    rw [hnone]
    exact .inr rfl

/-- The tags of a file as the checks see it. -/
def tagsIn : List Tag := (TagSet.ofDocument (normalizePath path) content).tags

theorem violations_beforeCreation :
    (p.beforeCreation files r path content).violations =
      p.checkSpecless (normalizePath path) (tagsIn path content) ++
        p.checkSpecs files r (normalizePath path) (tagsIn path content) := rfl

/-- The violations before creation are of two kinds. -/
theorem exists_of_mem_beforeCreation {v : Violation}
    (h : v ∈ (p.beforeCreation files r path content).violations) :
    v = speclessViolation (normalizePath path) ∨
      ∃ t elsewhere expected,
        v = missingSpecViolation (normalizePath path) t elsewhere expected := by
  rw [violations_beforeCreation, List.mem_append, mem_checkSpecless_iff] at h
  rcases h with ⟨hv, -⟩ | h
  · exact .inl hv
  · obtain ⟨t, -, -, hv⟩ := p.exists_of_mem_checkSpecs files r _ h
    exact .inr ⟨t, _, _, hv⟩

/-- Before creation every violation is critical. -/
theorem severity_of_mem_beforeCreation {v : Violation}
    (h : v ∈ (p.beforeCreation files r path content).violations) : v.severity = .critical := by
  obtain rfl | ⟨t, elsewhere, expected, rfl⟩ :=
    p.exists_of_mem_beforeCreation files r path content h
  · rfl
  · rfl

/-- Each check has its own rule. -/
theorem filter_rule {vs : List Violation} {own : Rule} (h : ∀ v ∈ vs, v.rule = own) (rule : Rule) :
    (vs.filter fun v => v.rule = rule) = if own = rule then vs else [] := by
  split
  · next heq => exact List.filter_eq_self.2 fun v hv => decide_eq_true ((h v hv).trans heq)
  · next hne =>
    exact List.filter_eq_nil_iff.2 fun v hv heq =>
      hne ((h v hv).symm.trans (of_decide_eq_true heq))

theorem rule_of_mem_checkSpecless {tags : List Tag} :
    ∀ v ∈ p.checkSpecless path tags, v.rule = .speclessCode := by
  intro v hv
  obtain ⟨rfl, -⟩ := (p.mem_checkSpecless_iff _).1 hv
  rfl

theorem rule_of_mem_checkSpecs {tags : List Tag} :
    ∀ v ∈ p.checkSpecs files r path tags, v.rule = .noSpecReference := by
  intro v hv
  obtain ⟨t, -, -, rfl⟩ := p.exists_of_mem_checkSpecs files r _ hv
  rfl

theorem ofRule_speclessCode :
    (p.beforeCreation files r path content).ofRule .speclessCode =
      p.checkSpecless (normalizePath path) (tagsIn path content) := by
  rw [PolicyReport.ofRule, violations_beforeCreation]
  generalize tagsIn path content = tags
  rw [List.filter_append, filter_rule (p.rule_of_mem_checkSpecless _),
    filter_rule (p.rule_of_mem_checkSpecs files r _)]
  exact List.append_nil _

theorem ofRule_noSpecReference :
    (p.beforeCreation files r path content).ofRule .noSpecReference =
      p.checkSpecs files r (normalizePath path) (tagsIn path content) := by
  rw [PolicyReport.ofRule, violations_beforeCreation]
  generalize tagsIn path content = tags
  rw [List.filter_append, filter_rule (p.rule_of_mem_checkSpecless _),
    filter_rule (p.rule_of_mem_checkSpecs files r _)]
  exact List.nil_append _

/-- A file is refused in strict mode if there is any violation before its creation. -/
theorem isBlocking_beforeCreation :
    (p.beforeCreation files r path content).isBlocking = true ↔
      p.strict = true ∧ (p.beforeCreation files r path content).violations ≠ [] := by
  rw [PolicyReport.isBlocking, Bool.and_eq_true, decide_eq_true_eq, PolicyReport.count,
    List.countP_pos_iff]
  refine and_congr_right fun _ => ⟨?_, fun h => ?_⟩
  · rintro ⟨v, hv, -⟩
    exact List.ne_nil_of_mem hv
  · obtain ⟨v, hv⟩ := List.exists_mem_of_ne_nil _ h
    exact ⟨v, hv, decide_eq_true (p.severity_of_mem_beforeCreation files r path content hv)⟩

theorem violations_beforeCreation_ne_nil_iff :
    (p.beforeCreation files r path content).violations ≠ [] ↔
      tagsIn path content = [] ∧ p.codePaths.isCode (normalizePath path) = true ∨
        ∃ t ∈ tagsIn path content, p.catalog.contains files t.specId.text = false := by
  rw [violations_beforeCreation, Ne, List.append_eq_nil_iff, not_and_or]
  refine or_congr ?_ ?_
  · rw [List.eq_nil_iff_forall_not_mem]
    simp only [mem_checkSpecless_iff, not_forall, not_not, exists_eq_left]
  · rw [checkSpecs_eq_nil_iff]
    simp only [not_forall, Bool.not_eq_true, exists_prop]

/-! ## After modification -/

theorem exists_of_mem_checkDuplicates {seen : SortedMap LinkKey Nat} {tags : List Tag}
    {v : Violation} (h : v ∈ checkDuplicates path seen tags) :
    ∃ t line, v = duplicateViolation path t line := by
  induction tags generalizing seen with
  | nil => cases h
  | cons t tags ih =>
    rw [checkDuplicates] at h
    split at h
    · rcases List.mem_cons.1 h with rfl | h
      · exact ⟨t, _, rfl⟩
      · exact ih h
    · exact ih h

theorem exists_of_mem_checkScopes {tags : List Tag} {v : Violation}
    (h : v ∈ p.checkScopes path tags) : ∃ t message, v = scopeViolation path t message := by
  obtain ⟨t, -, hv⟩ := List.mem_filterMap.1 h
  obtain ⟨message, -, rfl⟩ := Option.map_eq_some_iff.1 hv
  exact ⟨t, message, rfl⟩

theorem violations_afterModification :
    (p.afterModification r path content).violations =
      checkChains r (normalizePath path) (tagsIn path content) ++
        checkDuplicates (normalizePath path) {} (tagsIn path content) ++
        p.checkScopes (normalizePath path) (tagsIn path content) := rfl

theorem rule_of_mem_checkChains {tags : List Tag} :
    ∀ v ∈ checkChains r path tags, v.rule = .chainBreak := by
  intro v hv
  obtain ⟨t, -, rfl⟩ := List.mem_map.1 hv
  rfl

theorem rule_of_mem_checkDuplicates {seen : SortedMap LinkKey Nat} {tags : List Tag} :
    ∀ v ∈ checkDuplicates path seen tags, v.rule = .duplicateTags := by
  intro v hv
  obtain ⟨t, line, rfl⟩ := exists_of_mem_checkDuplicates _ hv
  rfl

theorem rule_of_mem_checkScopes {tags : List Tag} :
    ∀ v ∈ p.checkScopes path tags, v.rule = .directoryScope := by
  intro v hv
  obtain ⟨t, message, rfl⟩ := p.exists_of_mem_checkScopes _ hv
  rfl

/-- The violations of one rule are those of the check for it. -/
theorem ofRule_afterModification (rule : Rule) :
    (p.afterModification r path content).ofRule rule =
      match rule with
      | .chainBreak => checkChains r (normalizePath path) (tagsIn path content)
      | .duplicateTags => checkDuplicates (normalizePath path) {} (tagsIn path content)
      | .directoryScope => p.checkScopes (normalizePath path) (tagsIn path content)
      | .speclessCode | .noSpecReference => [] := by
  rw [PolicyReport.ofRule, violations_afterModification]
  generalize tagsIn path content = tags
  rw [List.filter_append, List.filter_append, filter_rule (rule_of_mem_checkChains r _),
    filter_rule (rule_of_mem_checkDuplicates _), filter_rule (p.rule_of_mem_checkScopes _)]
  cases rule <;> simp

/-- The violations after modification are of three kinds. -/
theorem exists_of_mem_afterModification {v : Violation}
    (h : v ∈ (p.afterModification r path content).violations) :
    (∃ t, v = untestedViolation (normalizePath path) t) ∨
      (∃ t line, v = duplicateViolation (normalizePath path) t line) ∨
        ∃ t message, v = scopeViolation (normalizePath path) t message := by
  rw [violations_afterModification, List.mem_append, List.mem_append] at h
  rcases h with (h | h) | h
  · obtain ⟨t, -, hv⟩ := List.mem_map.1 h
    exact .inl ⟨t, hv.symm⟩
  · exact .inr (.inl (exists_of_mem_checkDuplicates _ h))
  · exact .inr (.inr (p.exists_of_mem_checkScopes _ h))

/-- After modification no violation is critical. -/
theorem severity_of_mem_afterModification {v : Violation}
    (h : v ∈ (p.afterModification r path content).violations) : v.severity ≠ .critical := by
  obtain ⟨t, rfl⟩ | ⟨t, line, rfl⟩ | ⟨t, message, rfl⟩ :=
    p.exists_of_mem_afterModification r path content h
  · rintro ⟨⟩
  · rintro ⟨⟩
  · rintro ⟨⟩

theorem isBlocking_afterModification :
    (p.afterModification r path content).isBlocking = false := by
  rw [PolicyReport.isBlocking, PolicyReport.count, List.countP_eq_zero.2]
  · exact Bool.and_false _
  · intro v hv
    simpa using p.severity_of_mem_afterModification r path content hv

/-! ## The mode -/

theorem beforeCreation_strict (strict : Bool) :
    beforeCreation { p with strict } files r path content =
      { p.beforeCreation files r path content with strict } := by
  simp only [beforeCreation, checkSpecless, checkSpecs]

theorem afterModification_strict (strict : Bool) :
    afterModification { p with strict } r path content =
      { p.afterModification r path content with strict } := by
  simp only [afterModification, checkScopes, scopeFault?]

end Policy

/-! ## How violations are made

What is done about a violation comes from its severity when it is made, and a repair comes with the
mark for it.  The steps between leave all of this as it is. -/

theorem Action.name_eq_block_iff {a : Action} : a.name = "block" ↔ a = .block := by
  cases a <;> decide

theorem Severity.name_eq_critical_iff {s : Severity} : s.name = "critical" ↔ s = .critical := by
  cases s <;> decide

theorem Severity.action_eq_block_iff {s : Severity} : s.action = .block ↔ s = .critical := by
  cases s <;> decide

/-- The value of a field of an object. -/
def Json.field? (name : String) : Json → Option Json
  | .object fields => fields.lookup name
  | _ => none

/-- What a violation says about its severity fits what is done about it, and what it says about a
repair fits the repair, in the record and in what is written. -/
structure Violation.Fits (v : Violation) : Prop where
  action : v.action = .block ↔ v.severity = .critical
  fix : v.autoFixPossible = true ↔ v.fix ≠ none
  writtenAction : v.toJson.field? "action" = some (.string "block") ↔
    v.toJson.field? "level" = some (.string "critical")
  writtenFix : v.toJson.field? "auto_fix_possible" = some (.bool true) ↔
    v.toJson.field? "suggested_fix" ≠ some .null

namespace Violation

variable {v : Violation}

/-- What is written fits as soon as the record does. -/
theorem fits_of_record (haction : v.action = .block ↔ v.severity = .critical)
    (hfix : v.autoFixPossible = true ↔ v.fix ≠ none) : v.Fits where
  action := haction
  fix := hfix
  writtenAction := by
    show some (Json.string v.action.name) = _ ↔ some (Json.string v.severity.name) = _
    rw [Option.some.injEq, Option.some.injEq, Json.string.injEq, Json.string.injEq,
      Action.name_eq_block_iff, Severity.name_eq_critical_iff, haction]
  writtenFix := by
    have hnull : Json.ofOption v.fix = .null ↔ v.fix = none := by
      cases v.fix <;> simp [Json.ofOption]
    show some (Json.bool v.autoFixPossible) = _ ↔ some (Json.ofOption v.fix) ≠ _
    rw [Option.some.injEq, Json.bool.injEq, hfix, ne_eq, ne_eq, Option.some.injEq, hnull]

theorem fits_new (rule : Rule) (severity : Severity) (filePath message guidance : String) :
    (new rule severity filePath message guidance).Fits :=
  fits_of_record Severity.action_eq_block_iff ⟨nofun, fun h => absurd rfl h⟩

theorem Fits.withSpec (h : v.Fits) (id : String) : (v.withSpec id).Fits :=
  fits_of_record h.action h.fix

theorem Fits.atLine (h : v.Fits) (n : Nat) : (v.atLine n).Fits :=
  fits_of_record h.action h.fix

theorem Fits.withFix (h : v.Fits) (fix : String) : (v.withFix fix).Fits :=
  fits_of_record h.action ⟨fun _ => nofun, fun _ => rfl⟩

end Violation

namespace Policy

variable (p : Policy) (files : FileTree) (r : Records) (path content : String)

theorem fits_of_mem_beforeCreation {v : Violation}
    (h : v ∈ (p.beforeCreation files r path content).violations) : v.Fits := by
  obtain rfl | ⟨t, elsewhere, expected, rfl⟩ :=
    p.exists_of_mem_beforeCreation files r path content h
  · exact (Violation.fits_new ..).withFix _
  · exact (((Violation.fits_new ..).withSpec _).atLine _).withFix _

theorem fits_of_mem_afterModification {v : Violation}
    (h : v ∈ (p.afterModification r path content).violations) : v.Fits := by
  obtain ⟨t, rfl⟩ | ⟨t, line, rfl⟩ | ⟨t, message, rfl⟩ :=
    p.exists_of_mem_afterModification r path content h
  · exact ((Violation.fits_new ..).withSpec _).atLine _
  · exact (((Violation.fits_new ..).withSpec _).atLine _).withFix _
  · exact ((Violation.fits_new ..).withSpec _).atLine _

end Policy

/-! ## Reports -/

theorem PolicyReport.exitCode_eq_two_iff (report : PolicyReport) :
    report.exitCode = 2 ↔ report.isBlocking = true := by
  rw [exitCode]
  cases report.isBlocking <;> decide

/-- What the reports on a file say. -/
structure Policy.Gate (p : Policy) (files : FileTree) (r : Records) (path content : String) :
    Prop where
  /-- When the creation of the file is refused. -/
  blocks : (p.beforeCreation files r path content).isBlocking = true ↔ p.strict = true ∧
    (tagsIn path content = [] ∧ p.codePaths.isCode (normalizePath path) = true ∨
      ∃ t ∈ tagsIn path content, p.catalog.contains files t.specId.text = false)
  exit : (p.beforeCreation files r path content).exitCode = 2 ↔
    (p.beforeCreation files r path content).isBlocking = true
  /-- One violation for each spec without a document, where it occurs first. -/
  missing : ((p.beforeCreation files r path content).ofRule .noSpecReference).map
      (fun v => (v.specId, v.line)) =
    ((specsOf (tagsIn path content)).filter fun id => !p.catalog.contains files id.text).map
      fun id => (some id.text, ((tagsIn path content).find? fun t => t.specId == id).map Tag.line)
  specless : ((p.beforeCreation files r path content).ofRule .speclessCode).length ≤ 1
  oneKind : (p.beforeCreation files r path content).violations =
      (p.beforeCreation files r path content).ofRule .speclessCode ∨
    (p.beforeCreation files r path content).violations =
      (p.beforeCreation files r path content).ofRule .noSpecReference
  passes : (p.afterModification r path content).isBlocking = false
  /-- The mode changes nothing else in the reports. -/
  mode : ∀ strict, Policy.beforeCreation { p with strict } files r path content =
      { p.beforeCreation files r path content with strict } ∧
    Policy.afterModification { p with strict } r path content =
      { p.afterModification r path content with strict }
  fits : ∀ v ∈ (p.beforeCreation files r path content).violations ++
    (p.afterModification r path content).violations, v.Fits

/-- Whatever the rules, the documents, the records and the file are, the creation of the file is
refused exactly if it breaks a rule in strict mode, and its modification is not refused. -/
theorem Policy.gate (p : Policy) (files : FileTree) (r : Records) (path content : String) :
    p.Gate files r path content where
  blocks := by
    rw [isBlocking_beforeCreation, violations_beforeCreation_ne_nil_iff]
  exit := PolicyReport.exitCode_eq_two_iff _
  missing := by
    rw [ofRule_noSpecReference, map_checkSpecs]
  specless := by
    rw [ofRule_speclessCode, checkSpecless]
    split
    · exact Nat.le_refl 1
    · exact Nat.zero_le 1
  oneKind := by
    rw [ofRule_speclessCode, ofRule_noSpecReference, violations_beforeCreation]
    exact p.checkSpecless_or_checkSpecs files r _ _
  passes := p.isBlocking_afterModification r path content
  mode strict := ⟨p.beforeCreation_strict files r path content strict,
    p.afterModification_strict r path content strict⟩
  fits v hv := (List.mem_append.1 hv).elim (p.fits_of_mem_beforeCreation files r path content)
    (p.fits_of_mem_afterModification r path content)

end SpecLinkage
