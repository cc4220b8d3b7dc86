import ArchivePlan.Proofs.Precedence
import ArchivePlan.Proofs.StandIns

/-! # Faults of a declaration

What is wrong with an entry as it is declared, its ruleset included, is found without a look at the
file system (`Resolver.fault?`).  Resolving looks for these faults first and for the files after
them, so a fault is the answer in one file system if and only if it is in any other
(`resolve_eq_error_iff`).

A reference to a ruleset is judged twice, by `check` and by the lookup of attributes.  Both refuse
exactly the names that no ruleset has (`Registry.Misses`), so once the check has passed no lookup
fails any more: not for the entry itself, not for an item of a collection, and never for a directory
that a layer adds, which goes by the default (`faults_before_files`). -/

namespace ArchivePlan

/-! ### References to rulesets -/

namespace Registry

/-- The name of a ruleset is asked for that does not exist. -/
structure Misses (registry : Registry) (requested : Option String) (name : String) : Prop where
  requested : requested = some name
  ne_empty : name ≠ ""
  not_mem : name ∉ registry.rulesets.map (·.name)

variable {registry : Registry} {requested : Option String} {name : String}

theorem get?_eq_none_iff : registry.get? name = none ↔ name ∉ registry.rulesets.map (·.name) := by
  unfold get?
  simp [List.find?_eq_none]

/-- The default always exists, so what is missing was asked for. -/
theorem misses_iff : registry.Misses requested name ↔
    registry.effective requested = some name ∧ registry.get? name = none := by
  rw [effective_eq_some_iff, get?_eq_none_iff]
  constructor
  · rintro ⟨hrequested, hne, hmem⟩
    exact ⟨Or.inl ⟨hrequested, hne⟩, hmem⟩
  · rintro ⟨⟨hrequested, hne⟩ | ⟨-, hdefault⟩, hmem⟩
    · exact ⟨hrequested, hne, hmem⟩
    · exact absurd (registry.default_mem name hdefault).2 hmem

theorem check_eq_error_iff {e : RegistryError} :
    registry.check requested = .error e ↔
      ∃ name, registry.Misses requested name ∧ e = .unknownRuleset name := by
  simp only [misses_iff]
  unfold check
  cases registry.effective requested with
  | none => simp
  | some name =>
      have hany : registry.rulesets.any (·.name == name) = true ↔ ¬registry.get? name = none := by
        rw [get?_eq_none_iff]
        simp
      cases hget : registry.get? name with
      | none => simp [hany, hget, eq_comm]
      | some ruleset => simp [hany, hget]

theorem attributes_eq_error_iff {path : String} {kind : FileKind} {explicit : Attributes}
    {e : RegistryError} :
    registry.attributes path kind requested explicit = .error e ↔
      ∃ name, registry.Misses requested name ∧ e = .unknownRuleset name := by
  simp only [misses_iff]
  unfold attributes
  cases registry.effective requested with
  | none => simp
  | some name =>
      cases hget : registry.get? name with
      | none => simp [hget, eq_comm]
      | some ruleset => simp [hget]

theorem check_none (registry : Registry) : registry.check none = .ok () := by
  cases hcheck : registry.check none with
  | ok _ => rfl
  | error e =>
      obtain ⟨name, hmisses, -⟩ := check_eq_error_iff.mp hcheck
      cases hmisses.requested

/-- Behind a check that has passed every lookup succeeds. -/
theorem metadata_of_check (h : registry.check requested = .ok ()) (path : String) (kind : FileKind)
    (explicit : Attributes) : ∃ m, registry.metadata path kind requested explicit = .ok m := by
  unfold metadata
  cases hattributes : registry.attributes path kind requested explicit with
  | ok a => exact ⟨_, rfl⟩
  | error e =>
      have hcheck := check_eq_error_iff.mpr (attributes_eq_error_iff.mp hattributes)
      cases h.symm.trans hcheck

end Registry

/-! ### Faults -/

/-- The errors that tell of a declaration and not of files. -/
inductive ResolveError.IsDeclarationFault : ResolveError → Prop
  | invalidEntry (name : String) (fault : EntryFault) : IsDeclarationFault (.invalidEntry name fault)
  | registry (e : RegistryError) : IsDeclarationFault (.registry e)
  | emptyLink (name : String) : IsDeclarationFault (.emptyLink name)
  | pattern (e : PatternError) : IsDeclarationFault (.pattern e)

/-- What is wrong with a source of an entry with this name. -/
def Source.fault? (name : String) : Source → Option ResolveError
  | .link linked => if linked = "" then some (.emptyLink name) else none
  | .collect collection =>
    match Selection.make collection with
    | .error e => some (.pattern e)
    | .ok _ => none
  | .file _ | .directory | .ghost => none

/-- What is wrong with an entry as it is declared. -/
def Resolver.fault? (resolver : Resolver) (entry : Entry) : Option ResolveError :=
  match entry.source with
  | .error fault => some (.invalidEntry entry.name fault)
  | .ok source =>
    match entry.target with
    | .error fault => some (.invalidEntry entry.name fault)
    | .ok _ =>
      match resolver.registry.check entry.ruleset with
      | .error e => some (.registry e)
      | .ok () => source.fault? entry.name

theorem bind_eq_error_iff {ε α β : Type} {x : Except ε α} {f : α → Except ε β} {e : ε} :
    x >>= f = .error e ↔ x = .error e ∨ ∃ a, x = .ok a ∧ f a = .error e := by
  cases x with
  | error e' => simp [bind, Except.bind]
  | ok a => simp [bind, Except.bind]

/-- The patterns of a collection are judged before its root is looked up, and what can fail behind
them are files. -/
theorem Collection.items_eq_error_iff {collection : Collection} {fs : FileSystem} {root : Location}
    {e : ResolveError} (hfault : e.IsDeclarationFault) :
    collection.items fs root = .error e ↔
      ∃ e', Selection.make collection = .error e' ∧ e = .pattern e' := by
  unfold Collection.items
  cases hselection : Selection.make collection with
  | error e' => simp [eq_comm]
  | ok selection =>
      refine iff_of_false (fun herror => ?_) nofun
      dsimp only at herror
      split at herror
      · next children _ =>
          rcases Item.ofNodes_cases collection selection root (Node.descendantsOf children) with
            ⟨p, -, -, hstuck⟩ | ⟨-, items, hitems, -⟩
          · rw [hstuck] at herror
            cases herror
            cases hfault
          · rw [hitems] at herror
            cases herror
      · cases herror
        cases hfault

namespace Resolver

variable {resolver : Resolver} {fs : FileSystem} {entry : Entry} {e : ResolveError}

theorem sourceFile_eq_error {path : String} (h : resolver.sourceFile fs entry path = .error e) :
    ¬e.IsDeclarationFault := by
  unfold sourceFile at h
  dsimp only at h
  split at h
  · cases h
    rintro ⟨⟩
  · cases h
  · cases h
    rintro ⟨⟩

theorem descriptor_of_check (hcheck : resolver.registry.check entry.ruleset = .ok ())
    (path : String) (kind : EntryKind) (content : Content) (explicit : Attributes) :
    ∃ d, resolver.descriptor entry path kind content explicit = .ok d := by
  obtain ⟨m, hm⟩ := Registry.metadata_of_check hcheck path kind.fileKind explicit
  exact ⟨_, descriptor_eq_ok_iff.mpr ⟨m, hm, rfl⟩⟩

theorem itemDescriptors_of_check (hcheck : resolver.registry.check entry.ruleset = .ok ())
    (target : String) (items : List Item) :
    ∃ ds, resolver.itemDescriptors entry target items = .ok ds := by
  induction items with
  | nil => exact ⟨[], rfl⟩
  | cons item rest ih =>
      obtain ⟨d, hd⟩ := descriptor_of_check hcheck (pathBelow target item.path) item.kind
        item.content entry.explicit
      obtain ⟨ds, hds⟩ := ih
      exact ⟨d :: ds, by rw [itemDescriptors, hd, hds]; rfl⟩

theorem single_of_check (hcheck : resolver.registry.check entry.ruleset = .ok ())
    (target : String) (kind : EntryKind) (content : Content) (explicit : Attributes) :
    (do return [← resolver.descriptor entry target kind content explicit]) ≠ .error e := by
  obtain ⟨d, hd⟩ := descriptor_of_check hcheck target kind content explicit
  rw [hd]
  nofun

/-- Behind the check of the ruleset the only faults left are those of the source, and they come
before any file. -/
theorem ofSource_eq_error_iff (hcheck : resolver.registry.check entry.ruleset = .ok ())
    (hfault : e.IsDeclarationFault) (target : String) (source : Source) :
    resolver.ofSource fs entry target source = .error e ↔ source.fault? entry.name = some e := by
  cases source with
  | directory => exact iff_of_false (single_of_check hcheck _ _ _ _) (Option.some_ne_none e).symm
  | ghost => exact iff_of_false (single_of_check hcheck _ _ _ _) (Option.some_ne_none e).symm
  | link linked =>
      rw [ofSource, Source.fault?]
      by_cases hempty : linked = ""
      · simp [hempty]
      · rw [if_neg hempty, if_neg hempty]
        exact iff_of_false (single_of_check hcheck _ _ _ _) (Option.some_ne_none e).symm
  | file path =>
      refine iff_of_false (fun h => ?_) (Option.some_ne_none e).symm
      rcases bind_eq_error_iff.mp h with hsource | ⟨location, -, h⟩
      · exact sourceFile_eq_error hsource hfault
      · exact single_of_check hcheck _ _ _ _ h
  | collect collection =>
      have hitems : (∃ items, collection.items fs (resolver.locate fs collection.root) =
          .ok items ∧ resolver.itemDescriptors entry target items = .error e) ↔ False := by
        refine iff_of_false ?_ id
        rintro ⟨items, -, h⟩
        obtain ⟨ds, hds⟩ := itemDescriptors_of_check hcheck target items
        cases hds.symm.trans h
      rw [ofSource, bind_eq_error_iff, hitems, or_false, Collection.items_eq_error_iff hfault,
        Source.fault?]
      cases Selection.make collection with
      | error e' => simp [eq_comm]
      | ok selection => simp

/-- **A fault of a declaration is found whatever files there are.** -/
theorem resolve_eq_error_iff (hfault : e.IsDeclarationFault) :
    resolver.resolve fs entry = .error e ↔ resolver.fault? entry = some e := by
  unfold resolve fault?
  cases entry.source with
  | error fault => simp
  | ok source =>
      cases entry.target with
      | error fault => simp
      | ok target =>
          cases hcheck : resolver.registry.check entry.ruleset with
          | error e' => simp
          | ok _ => exact ofSource_eq_error_iff hcheck hfault target source

theorem resolve_eq_registry_error_iff {e : RegistryError} :
    resolver.resolve fs entry = .error (.registry e) ↔
      (∃ source, entry.source = .ok source) ∧ (∃ target, entry.target = .ok target) ∧
        resolver.registry.check entry.ruleset = .error e := by
  rw [resolve_eq_error_iff (.registry e), fault?]
  cases entry.source with
  | error fault => simp
  | ok source =>
      cases entry.target with
      | error fault => simp
      | ok target =>
          cases resolver.registry.check entry.ruleset with
          | error e' => simp
          | ok _ =>
              cases source with
              | collect collection =>
                  simp only [Source.fault?]
                  split <;> simp
              | link linked => simp [Source.fault?]
              | file _ | directory | ghost => simp [Source.fault?]

end Resolver

/-! ### Directories that a layer adds -/

namespace ParentLayer

variable {σ : Type} {layer : ParentLayer} {inner : Sink σ} {e : PlanError}

theorem refusal_of_addParents {state : Layered σ} {directories : List String}
    (h : (layer.addParents inner state directories).refusal = some e) :
    ∃ reached given, (inner.add reached given).refusal = some e := by
  induction directories generalizing state with
  | nil => cases h
  | cons directory rest ih =>
      unfold addParents at h
      split at h
      · simp only [layer.parent_eq] at h
        split at h
        · next hrefusal => exact ⟨_, _, hrefusal.trans h⟩
        · exact ih h
      · exact ih h

theorem refusal_of_add {state : Layered σ} {d : Descriptor}
    (h : (layer.add inner state d).refusal = some e) :
    ∃ reached given, (inner.add reached given).refusal = some e ∨
      (inner.supersede reached given).refusal = some e := by
  unfold add Reply.andThen at h
  split at h
  · dsimp only at h
    by_cases hsupersedes : d.isDirectory = true ∧ d.path ∈
        (layer.addParents inner state (Target.ancestors d.path)).state.provisional
    · rw [if_pos hsupersedes] at h
      exact ⟨_, _, Or.inr h⟩
    · rw [if_neg hsupersedes] at h
      exact ⟨_, _, Or.inl h⟩
  · next hparents =>
      obtain ⟨reached, given, hrefusal⟩ := refusal_of_addParents hparents
      exact ⟨reached, given, Or.inl (hrefusal.trans h)⟩

end ParentLayer

/-! ### Faults and files -/

namespace Resolver

/-- **Faults of a declaration come before files.**  The check of a ruleset refuses what the lookup
of attributes refuses, for any path, kind and explicit attributes and with the same error: the names
that no ruleset has, and so never the default.  An entry is refused for a fault of its declaration
in one file system if and only if it is in another, for a ruleset only if the check refuses it.
Behind the check no archive entry lacks its metadata, and neither does a directory that a layer
adds, so what a layer refuses was refused by the sink below it. -/
theorem faults_before_files (resolver : Resolver) (entry : Entry) :
    (∀ requested path kind explicit e, resolver.registry.check requested = .error e ↔
      resolver.registry.attributes path kind requested explicit = .error e) ∧
    (∀ requested e, resolver.registry.check requested = .error e ↔
      ∃ name, resolver.registry.Misses requested name ∧ e = .unknownRuleset name) ∧
    resolver.registry.check none = .ok () ∧
    (∀ fs fs' e, e.IsDeclarationFault →
      (resolver.resolve fs entry = .error e ↔ resolver.resolve fs' entry = .error e)) ∧
    (∀ fs e, resolver.resolve fs entry = .error (.registry e) ↔
      (∃ source, entry.source = .ok source) ∧ (∃ target, entry.target = .ok target) ∧
        resolver.registry.check entry.ruleset = .error e) ∧
    (resolver.registry.check entry.ruleset = .ok () →
      (∀ path kind content explicit,
        ∃ d, resolver.descriptor entry path kind content explicit = .ok d) ∧
      ∀ target items, ∃ ds, resolver.itemDescriptors entry target items = .ok ds) ∧
    ∀ layer : ParentLayer, (∀ directory, ∃ d, layer.parent directory = .ok d) ∧
      ∀ (σ : Type) (inner : Sink σ) (state : Layered σ) (d : Descriptor) (e : PlanError),
        (layer.add inner state d).refusal = some e → ∃ reached given,
          (inner.add reached given).refusal = some e ∨
            (inner.supersede reached given).refusal = some e := by
  refine ⟨fun requested path kind explicit e => ?_, fun _ _ => Registry.check_eq_error_iff,
    Registry.check_none _, fun fs fs' e hfault => ?_, fun _ _ => resolve_eq_registry_error_iff,
    fun hcheck => ⟨descriptor_of_check hcheck, itemDescriptors_of_check hcheck⟩,
    fun layer => ⟨fun directory => ⟨_, layer.parent_eq directory⟩, fun _ _ _ _ _ =>
      ParentLayer.refusal_of_add⟩⟩
  · rw [Registry.check_eq_error_iff, Registry.attributes_eq_error_iff]
  · rw [resolve_eq_error_iff hfault, resolve_eq_error_iff hfault]

/-- The collection of `/t` under `/opt`, by a ruleset of which nobody has heard. -/
def strayEntry : Entry where
  name := "/opt"
  collect := some { root := "/t" }
  ruleset := some "web"

/-- A file system in which `/t` is an empty directory. -/
def emptyDirectoryTree : FileSystem where
  root := .directory [([0x74], .directory [])]

/-- The stray ruleset is the error where there is no `/t` as well as where there is nothing in it;
and an entry without a ruleset has its metadata. -/
theorem faults_before_files_stray :
    let resolver : Resolver := { registry := {} }
    let fault : ResolveError := .registry (.unknownRuleset "web")
    fault.IsDeclarationFault ∧ resolver.resolve {} strayEntry = .error fault ∧
      resolver.resolve emptyDirectoryTree strayEntry = .error fault ∧
      resolver.registry.check none = .ok () ∧
      ∃ d, resolver.descriptor { name := "/opt" } "/opt" .directory .none {} = .ok d := by
  intro resolver fault
  have hfault : fault.IsDeclarationFault := .registry _
  have habsent : resolver.resolve {} strayEntry = .error fault := rfl
  obtain ⟨-, -, -, hfiles, -⟩ := faults_before_files resolver strayEntry
  obtain ⟨-, -, hnone, -, -, hlookup, -⟩ := faults_before_files resolver { name := "/opt" }
  exact ⟨hfault, habsent, (hfiles {} emptyDirectoryTree fault hfault).mp habsent, hnone,
    (hlookup hnone).1 _ _ _ _⟩

end Resolver

end ArchivePlan
