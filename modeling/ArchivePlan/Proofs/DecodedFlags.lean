import ArchivePlan.Manifest.Decode
import ArchivePlan.Proofs.Sources

/-! # Flags that a manifest can set

No key stands for the flag of ghosts (`Flag.ofKey?_ne_ghost`), so the attributes of a table leave it
open whatever the table holds, a key `ghost` included.  What each field of a record preserves holds
of the whole record (`readFields_induction`), and this carries over from attributes to rules and
entries and to all that a manifest declares (`Manifest.decode_ghost`). -/

namespace ArchivePlan

/-! ### Fields and lists -/

/-- What holds at first and is preserved by every field holds of a record that was read. -/
theorem readFields_induction {α : Type} {P : α → Prop}
    {read : α → String → Toml.Value → Except DataFault α} {start result : α}
    {fields : List (String × Toml.Value)} (hstart : P start)
    (hread : ∀ a key v b, P a → read a key v = .ok b → P b)
    (h : readFields read start fields = .ok result) : P result := by
  unfold readFields at h
  induction fields generalizing start with
  | nil =>
      cases h
      exact hstart
  | cons field rest ih =>
      rw [List.foldlM_cons] at h
      obtain ⟨next, hnext, h⟩ := exists_of_bind_eq_ok h
      exact ih (hread _ _ _ _ hstart hnext) h

theorem Toml.Value.exists_of_mem_asList {α : Type} {read : Toml.Value → Except DataFault α}
    {v : Toml.Value} {as : List α} {a : α} (h : v.asList read = .ok as) (ha : a ∈ as) :
    ∃ item, read item = .ok a := by
  unfold asList at h
  split at h
  · obtain ⟨item, -, hread⟩ := exists_of_forall₂ (mapM_eq_ok_iff.mp h).flip ha
    exact ⟨item, hread⟩
  · cases h

/-! ### The flag of ghosts -/

theorem Flag.ofKey?_ne_ghost (key : String) : Flag.ofKey? key ≠ some .ghost := by
  intro h
  have hkey := List.find?_some h
  cases hkey

namespace Attributes

theorem readField_ghost {a b : Attributes} {key : String} {v : Toml.Value}
    (h : a.flag .ghost = none) (hread : a.readField key v = .ok b) : b.flag .ghost = none := by
  unfold readField at hread
  split at hread
  · obtain ⟨mode, -, hread⟩ := exists_of_bind_eq_ok hread
    cases hread
    exact h
  · split at hread
    · split at hread
      · cases hread
      · obtain ⟨owner, -, hread⟩ := exists_of_bind_eq_ok hread
        cases hread
        exact h
    · split at hread
      · obtain ⟨group, -, hread⟩ := exists_of_bind_eq_ok hread
        cases hread
        exact h
      · split at hread
        · next flag hflag =>
            obtain ⟨value, -, hread⟩ := exists_of_bind_eq_ok hread
            cases hread
            have hne : Flag.ghost ≠ flag := fun heq => Flag.ofKey?_ne_ghost key (heq ▸ hflag)
            exact (if_neg hne).trans h
        · cases hread
          exact h

theorem ofFields_ghost {fields : List (String × Toml.Value)} {a : Attributes}
    (h : ofFields fields = .ok a) : a.flag .ghost = none :=
  readFields_induction (P := fun a => a.flag .ghost = none) rfl
    (fun _ _ _ _ => readField_ghost) h

end Attributes

theorem Rule.decode_ghost {v : Toml.Value} {rule : Rule} (h : Rule.decode v = .ok rule) :
    rule.effects.flag .ghost = none := by
  obtain ⟨fields, -, h⟩ := exists_of_bind_eq_ok h
  obtain ⟨own, -, h⟩ := exists_of_bind_eq_ok h
  obtain ⟨effects, heffects, h⟩ := exists_of_bind_eq_ok h
  cases h
  exact Attributes.ofFields_ghost heffects

theorem Entry.decode_ghost {v : Toml.Value} {entry : Entry} (h : Entry.decode v = .ok entry) :
    entry.explicit.flag .ghost = none := by
  obtain ⟨fields, -, h⟩ := exists_of_bind_eq_ok h
  obtain ⟨own, -, h⟩ := exists_of_bind_eq_ok h
  obtain ⟨-, -, h⟩ := exists_of_bind_eq_ok h
  obtain ⟨explicit, hexplicit, h⟩ := exists_of_bind_eq_ok h
  cases h
  exact Attributes.ofFields_ghost hexplicit

/-- No rule of a ruleset switches the flag of ghosts. -/
def Ruleset.LeavesGhost (ruleset : Ruleset) : Prop :=
  ∀ rule ∈ ruleset.rules, rule.effects.flag .ghost = none

theorem Ruleset.decode_ghost {v : Toml.Value} {ruleset : Ruleset}
    (h : Ruleset.decode v = .ok ruleset) : ruleset.LeavesGhost := by
  obtain ⟨fields, -, h⟩ := exists_of_bind_eq_ok h
  obtain ⟨found, hfound, h⟩ := exists_of_bind_eq_ok h
  obtain ⟨-, -, h⟩ := exists_of_bind_eq_ok h
  cases h
  refine readFields_induction (P := Ruleset.LeavesGhost) ?_ ?_ hfound
  · exact fun rule hrule => absurd hrule List.not_mem_nil
  · intro a key v b ha hread
    unfold Ruleset.readField at hread
    split at hread
    · obtain ⟨name, -, hread⟩ := exists_of_bind_eq_ok hread
      cases hread
      exact ha
    · obtain ⟨rules, hrules, hread⟩ := exists_of_bind_eq_ok hread
      cases hread
      intro rule hrule
      obtain ⟨item, hitem⟩ := Toml.Value.exists_of_mem_asList hrules hrule
      exact Rule.decode_ghost hitem
    · cases hread

namespace Manifest

/-- Nothing in a manifest switches the flag of ghosts. -/
structure LeavesGhost (manifest : Manifest) : Prop where
  rulesets : ∀ ruleset ∈ manifest.rulesets, ruleset.LeavesGhost
  entries : ∀ entry ∈ manifest.entries, entry.explicit.flag .ghost = none

theorem readField_ghost {a b : Manifest} {key : String} {v : Toml.Value} (h : a.LeavesGhost)
    (hread : a.readField key v = .ok b) : b.LeavesGhost := by
  unfold readField at hread
  split at hread
  · obtain ⟨name, -, hread⟩ := exists_of_bind_eq_ok hread
    cases hread
    exact ⟨h.rulesets, h.entries⟩
  · obtain ⟨bases, -, hread⟩ := exists_of_bind_eq_ok hread
    cases hread
    exact ⟨h.rulesets, h.entries⟩
  · obtain ⟨time, -, hread⟩ := exists_of_bind_eq_ok hread
    cases hread
    exact ⟨h.rulesets, h.entries⟩
  · obtain ⟨digest, -, hread⟩ := exists_of_bind_eq_ok hread
    cases hread
    exact ⟨h.rulesets, h.entries⟩
  · obtain ⟨rulesets, hrulesets, hread⟩ := exists_of_bind_eq_ok hread
    cases hread
    refine ⟨fun ruleset hruleset => ?_, h.entries⟩
    obtain ⟨item, hitem⟩ := Toml.Value.exists_of_mem_asList hrulesets hruleset
    exact Ruleset.decode_ghost hitem
  · obtain ⟨entries, hentries, hread⟩ := exists_of_bind_eq_ok hread
    cases hread
    refine ⟨h.rulesets, fun entry hentry => ?_⟩
    obtain ⟨item, hitem⟩ := Toml.Value.exists_of_mem_asList hentries hentry
    exact Entry.decode_ghost hitem
  · cases hread

/-- **A manifest that was read leaves the flag of ghosts to the kind of an entry.** -/
theorem decode_ghost {v : Toml.Value} {manifest : Manifest} (h : decode v = .ok manifest) :
    manifest.LeavesGhost := by
  obtain ⟨fields, -, h⟩ := exists_of_bind_eq_ok h
  refine readFields_induction ?_ (fun _ _ _ _ => readField_ghost) h
  exact ⟨fun ruleset hruleset => absurd hruleset List.not_mem_nil,
    fun entry hentry => absurd hentry List.not_mem_nil⟩

end Manifest

end ArchivePlan
