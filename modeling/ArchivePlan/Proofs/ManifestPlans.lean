import ArchivePlan.Manifest.Load
import ArchivePlan.Proofs.Sources

/-! # Plans of consistent manifests

What `Manifest.check` refuses is what the registry and the layer of parent directories refuse on
their own: `check_eq_ok_iff` says it of the parts of a manifest, `Registry.make_cases` and
`canonicalBases_of_checkBases` say it of what they are made into.  The name of the default ruleset
is not looked at by the check.  So a manifest that was read from a text has a plan unless this name
is unknown, and the plan builds any entries whatever (`ofManifest_of_parse`). -/

namespace ArchivePlan

/-! ### Registries -/

namespace Registry

variable {rulesets : List Ruleset}

/-- Rulesets with different names make a registry unless none of them has the default name. -/
theorem make_cases (default : Option String)
    (hdistinct : firstRepeated [] (rulesets.map (·.name)) = none) :
    (∃ name, named default = some name ∧ name ∉ rulesets.map (·.name) ∧
      make rulesets default = .error (.unknownRuleset name)) ∨
    (∀ name, named default = some name → name ∈ rulesets.map (·.name)) ∧
      ∃ registry, make rulesets default = .ok registry ∧ registry.rulesets = rulesets ∧
        registry.default = named default := by
  unfold make
  split
  · next name hrepeated => cases hdistinct.symm.trans hrepeated
  · split
    · next hnone =>
        refine Or.inr ⟨fun name hname => ?_, _, rfl, rfl, hnone.symm⟩
        cases hnone.symm.trans hname
    · next name hname =>
        split
        · next hmem =>
            refine Or.inr ⟨fun other hother => ?_, _, rfl, rfl, hname.symm⟩
            obtain rfl := Option.some.inj (hname.symm.trans hother)
            exact hmem
        · next hmem => exact Or.inl ⟨name, hname, hmem, rfl⟩

end Registry

/-! ### Checked manifests -/

namespace Manifest

variable {manifest : Manifest}

theorem canonicalBases_of_checkBases {declared : List String}
    (h : checkBases declared = .ok ()) : ∃ bases, canonicalBases declared = .ok bases := by
  refine canonicalBases_ok ?_
  induction declared with
  | nil => exact fun name hname => absurd hname List.not_mem_nil
  | cons path rest ih =>
      rw [checkBases] at h
      split at h
      · next base hbase => exact List.forall_mem_cons.mpr ⟨⟨base, hbase⟩, ih h⟩
      · cases h

theorem check_eq_ok_iff :
    manifest.check = .ok () ↔ firstRepeated [] (manifest.rulesets.map (·.name)) = none ∧
      checkBases manifest.intermediate = .ok () ∧ ∃ time, manifest.modified = .ok time := by
  unfold check
  cases firstRepeated [] (manifest.rulesets.map (·.name)) with
  | some name => simp [throw, throwThe, MonadExceptOf.throw, bind, Except.bind]
  | none =>
      cases checkBases manifest.intermediate with
      | error fault => simp [bind, Except.bind]
      | ok _ =>
          cases manifest.modified with
          | error e => simp [bind, Except.bind, Except.mapError]
          | ok time => simp [bind, Except.bind, Except.mapError, pure, Except.pure]

/-- A text that is accepted writes a table that is read as a consistent manifest. -/
theorem exists_of_parse {text : String} (h : parse text = .ok manifest) :
    (∃ fields, decode (.table fields) = .ok manifest) ∧ manifest.check = .ok () := by
  unfold parse at h
  obtain ⟨read, hread, h⟩ := exists_of_bind_eq_ok h
  obtain ⟨⟨⟩, hcheck, h⟩ := exists_of_bind_eq_ok h
  cases h
  constructor
  · unfold readDocument at hread
    split at hread
    · cases hread
    · next fields _ =>
        refine ⟨fields, ?_⟩
        cases hdecode : decode (.table fields) with
        | error fault =>
            rw [hdecode] at hread
            cases hread
        | ok found =>
            rw [hdecode] at hread
            cases hread
            rfl
  · cases hfound : manifest.check with
    | error fault =>
        rw [hfound] at hcheck
        cases hcheck
    | ok _ => rfl

end Manifest

/-! ### Their plans -/

namespace Plan

variable {manifest : Manifest} {policy : Policy}

/-- A plan whose base paths are target paths and that goes on after failures always builds. -/
theorem build_of_canonicalBases {plan : Plan} {bases : List String}
    (hpolicy : plan.policy = .proceed) (hbases : canonicalBases plan.intermediate = .ok bases)
    (fs : FileSystem) (entries : List Entry) :
    ∃ listing, plan.build fs entries = .ok (listing, plan.reportOn fs entries) := by
  by_cases hnone : plan.intermediate = []
  · obtain ⟨listing, hbuild, -⟩ := build_of_no_bases fs hpolicy hnone entries
    exact ⟨listing, by rw [hbuild, foldl_noted_empty]⟩
  · exact ⟨_, by rw [build_of_bases fs hpolicy hnone hbases, foldl_noted_empty]⟩

theorem ofManifest_cases (hcheck : manifest.check = .ok ()) (policy : Policy) :
    (∃ name, Registry.named manifest.defaultRuleset = some name ∧
      name ∉ manifest.rulesets.map (·.name) ∧
      ofManifest manifest policy = .error (.resolve (.registry (.unknownRuleset name)))) ∨
    (∀ name, Registry.named manifest.defaultRuleset = some name →
      name ∈ manifest.rulesets.map (·.name)) ∧
      ∃ registry modified, registry.rulesets = manifest.rulesets ∧
        manifest.modified = .ok modified ∧
        ofManifest manifest policy = .ok {
          registry, modified, policy
          intermediate := manifest.intermediate
          digest := manifest.digest
          baseDir := manifest.baseDir } := by
  obtain ⟨hdistinct, -, time, htime⟩ := Manifest.check_eq_ok_iff.mp hcheck
  unfold ofManifest Manifest.registry
  rw [htime]
  rcases Registry.make_cases manifest.defaultRuleset hdistinct with
    ⟨name, hname, hunknown, herror⟩ | ⟨hknown, registry, hok, hrulesets, -⟩
  · refine Or.inl ⟨name, hname, hunknown, ?_⟩
    rw [herror]
    rfl
  · refine Or.inr ⟨hknown, registry, time, hrulesets, rfl, ?_⟩
    rw [hok]
    rfl

/-- **The check of a manifest leaves nothing to go wrong but the default ruleset.**  A manifest that
was read from a text has no plan if and only if it names a default ruleset that it does not declare,
and the error says so; and a plan of it that goes on after failures builds any entries in any file
system, with a report on all of them. -/
theorem ofManifest_of_parse {text : String} (h : Manifest.parse text = .ok manifest) :
    (∀ policy e, ofManifest manifest policy = .error e ↔
      ∃ name, manifest.defaultRuleset = some name ∧ name ≠ "" ∧
        name ∉ manifest.rulesets.map (·.name) ∧
        e = .resolve (.registry (.unknownRuleset name))) ∧
    ∀ plan, ofManifest manifest .proceed = .ok plan → ∀ fs entries,
      ∃ listing, plan.build fs entries = .ok (listing, plan.reportOn fs entries) := by
  obtain ⟨-, hcheck⟩ := Manifest.exists_of_parse h
  constructor
  · intro policy e
    simp only [← and_assoc, ← Registry.named_eq_some_iff]
    rcases ofManifest_cases hcheck policy with
      ⟨name, hname, hunknown, herror⟩ | ⟨hknown, registry, modified, -, -, hok⟩
    · rw [herror, Except.error.injEq]
      constructor
      · rintro rfl
        exact ⟨name, ⟨hname, hunknown⟩, rfl⟩
      · rintro ⟨other, ⟨hother, -⟩, rfl⟩
        rw [Option.some.inj (hname.symm.trans hother)]
    · rw [hok]
      refine iff_of_false (fun herror => by cases herror) ?_
      rintro ⟨name, ⟨hname, hunknown⟩, -⟩
      exact hunknown (hknown name hname)
  · intro plan hplan fs entries
    obtain ⟨-, hbases, -⟩ := Manifest.check_eq_ok_iff.mp hcheck
    obtain ⟨bases, hbases⟩ := Manifest.canonicalBases_of_checkBases hbases
    rcases ofManifest_cases hcheck .proceed with
      ⟨name, -, -, herror⟩ | ⟨-, registry, modified, -, -, hok⟩
    · cases herror.symm.trans hplan
    · cases hok.symm.trans hplan
      exact build_of_canonicalBases rfl hbases fs entries

/-- A manifest that declares its default ruleset. -/
def declaringManifest : Manifest where
  defaultRuleset := some "r"
  intermediate := ["/opt/"]
  rulesets := [{ name := "r" }]

/-- A default ruleset that is not declared leaves a manifest without a plan; once it is declared, a
link in a directory that nobody declares is built besides an entry without a source. -/
theorem ofManifest_of_parse_defaultRuleset :
    Manifest.parse "default-ruleset='r'" = .ok { defaultRuleset := some "r" } ∧
    ofManifest { defaultRuleset := some "r" } .abort =
      .error (.resolve (.registry (.unknownRuleset "r"))) ∧
    Manifest.parse "default-ruleset='r'
      intermediate-directories=['/opt/']
      [[ruleset]]
      id='r'" = .ok declaringManifest ∧
    ∃ plan listing report, ofManifest declaringManifest .proceed = .ok plan ∧
      plan.build {} [{ name := "/opt/x/l", linkTo := some "f" }, { name := "/opt/y" }] =
        .ok (listing, report) ∧
      report.resolved = 1 ∧ report.failed = [("/opt/y", .invalidEntry "/opt/y" .noSource)] := by
  have hunknown : Manifest.parse "default-ruleset='r'" = .ok { defaultRuleset := some "r" } := by
    decide +kernel
  have hdeclared : Manifest.parse "default-ruleset='r'
      intermediate-directories=['/opt/']
      [[ruleset]]
      id='r'" = .ok declaringManifest := by
    decide +kernel
  refine ⟨hunknown, ?_, hdeclared, ?_⟩
  · exact ((ofManifest_of_parse hunknown).1 _ _).mpr ⟨"r", rfl, by decide, by decide, rfl⟩
  · obtain ⟨listing, hbuild⟩ := (ofManifest_of_parse hdeclared).2 _ rfl {}
      [{ name := "/opt/x/l", linkTo := some "f" }, { name := "/opt/y" }]
    exact ⟨_, listing, _, rfl, hbuild, rfl, rfl⟩

end Plan

end ArchivePlan
