import ArchivePlan.Descriptor
import ArchivePlan.Error

/-! # Sinks

A sink takes archive entries one by one.  It is told when the entries of a collection begin and end,
and can be asked to put a directory in the place of one it was given before.  Its answer to each
entry is its next state and, if it refuses the entry, the reason; a refusal may leave traces, so the
state is part of it. -/

namespace ArchivePlan

/-- The answer of a sink with states in `σ`. -/
structure Reply (σ : Type) where
  state : σ
  refusal : Option PlanError := none

/-- The answer that goes on with `next` unless it is a refusal already. -/
def Reply.andThen {σ : Type} (reply : Reply σ) (next : σ → Reply σ) : Reply σ :=
  match reply.refusal with
  | none => next reply.state
  | some e => ⟨reply.state, some e⟩

def Reply.map {σ τ : Type} (f : σ → τ) (reply : Reply σ) : Reply τ :=
  ⟨f reply.state, reply.refusal⟩

/-- Something that takes archive entries, with states in `σ`. -/
structure Sink (σ : Type) where
  /-- Takes an entry. -/
  add : σ → Descriptor → Reply σ
  /-- Puts a directory in the place of the one of the same path, or adds it. -/
  supersede : σ → Descriptor → Reply σ
  /-- The entries of a collection with this root begin. -/
  enter : σ → String → σ := fun state _ => state
  /-- The entries of the collection end. -/
  leave : σ → σ := fun state => state

/-- Gives entries to a sink up to the first that it refuses. -/
def Sink.addAll {σ : Type} (sink : Sink σ) (state : σ) : List Descriptor → Reply σ
  | [] => ⟨state, none⟩
  | d :: rest => (sink.add state d).andThen fun state => sink.addAll state rest

end ArchivePlan
