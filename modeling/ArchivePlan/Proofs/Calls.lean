import ArchivePlan.Sink.Listing
import Mathlib.Data.List.Basic

/-! # Sequences of calls

Whoever fills a sink adds entries and tells it when a collection begins and ends (`Call`); `run` is
the state that any sequence of such calls leads to.  `declarations` lists the entries of a sequence,
each with the root of the collection that was open at its call.

A sink that refuses nothing (`Accepts`) answers a list of entries by the run of their calls
(`addAll_of_accepts`). -/

namespace ArchivePlan

/-- What a sink is asked while it is filled. -/
inductive Call where
  | add (d : Descriptor)
  | enter (root : String)
  | leave
  deriving DecidableEq

/-- An entry with the root of the collection that was open when it was added. -/
structure Declaration where
  collection : Option String
  entry : Descriptor
  deriving DecidableEq

namespace Call

/-- The root of the open collection after some calls. -/
def openRoot (root : Option String) : List Call → Option String
  | [] => root
  | .add _ :: calls => openRoot root calls
  | .enter root :: calls => openRoot (some root) calls
  | .leave :: calls => openRoot none calls

/-- The entries that calls add, with the roots of their collections. -/
def declarations (root : Option String) : List Call → List Declaration
  | [] => []
  | .add d :: calls => ⟨root, d⟩ :: declarations root calls
  | .enter root :: calls => declarations (some root) calls
  | .leave :: calls => declarations none calls

def entries (calls : List Call) : List Descriptor :=
  (declarations none calls).map (·.entry)

theorem openRoot_append (root : Option String) (before after : List Call) :
    openRoot root (before ++ after) = openRoot (openRoot root before) after := by
  induction before generalizing root with
  | nil => rfl
  | cons c before ih => cases c <;> exact ih _

theorem declarations_append (root : Option String) (before after : List Call) :
    declarations root (before ++ after) =
      declarations root before ++ declarations (openRoot root before) after := by
  induction before generalizing root with
  | nil => rfl
  | cons c before ih =>
      cases c with
      | add d => exact congrArg (_ :: ·) (ih root)
      | enter root => exact ih _
      | leave => exact ih _

theorem declarations_map_add (root : Option String) (ds : List Descriptor) :
    declarations root (ds.map .add) = ds.map fun d => ⟨root, d⟩ := by
  induction ds with
  | nil => rfl
  | cons d ds ih => exact congrArg (_ :: ·) ih

theorem openRoot_map_add (root : Option String) (ds : List Descriptor) :
    openRoot root (ds.map .add) = root := by
  induction ds with
  | nil => rfl
  | cons d ds ih => exact ih

theorem map_entry_declarations (root root' : Option String) (calls : List Call) :
    (declarations root calls).map (·.entry) = (declarations root' calls).map (·.entry) := by
  induction calls generalizing root root' with
  | nil => rfl
  | cons c calls ih =>
      cases c with
      | add d => exact congrArg (d :: ·) (ih root root')
      | enter root => rfl
      | leave => rfl

@[simp] theorem entries_cons_add (d : Descriptor) (calls : List Call) :
    entries (.add d :: calls) = d :: entries calls := rfl

@[simp] theorem entries_cons_enter (root : String) (calls : List Call) :
    entries (.enter root :: calls) = entries calls :=
  map_entry_declarations (some root) none calls

@[simp] theorem entries_cons_leave (calls : List Call) : entries (.leave :: calls) = entries calls :=
  rfl

end Call

namespace Sink

variable {σ : Type} (sink : Sink σ)

def answer (state : σ) : Call → Reply σ
  | .add d => sink.add state d
  | .enter root => ⟨sink.enter state root, none⟩
  | .leave => ⟨sink.leave state, none⟩

/-- The state that calls lead to, one after the other whatever the answers are. -/
def run (state : σ) (calls : List Call) : σ :=
  calls.foldl (fun state c => (sink.answer state c).state) state

@[simp] theorem run_cons (state : σ) (c : Call) (calls : List Call) :
    sink.run state (c :: calls) = sink.run (sink.answer state c).state calls := rfl

theorem run_append (state : σ) (before after : List Call) :
    sink.run state (before ++ after) = sink.run (sink.run state before) after :=
  List.foldl_append

structure Accepts (sink : Sink σ) : Prop where
  add : ∀ state d, (sink.add state d).refusal = none
  supersede : ∀ state d, (sink.supersede state d).refusal = none

variable {sink}

theorem Accepts.add_eq (h : sink.Accepts) (state : σ) (d : Descriptor) :
    sink.add state d = ⟨(sink.add state d).state, none⟩ := by
  rw [← h.add state d]

theorem addAll_of_accepts (h : sink.Accepts) (state : σ) (ds : List Descriptor) :
    sink.addAll state ds = ⟨sink.run state (ds.map .add), none⟩ := by
  induction ds generalizing state with
  | nil => rfl
  | cons d ds ih =>
      rw [addAll, h.add_eq state d]
      exact ih _

end Sink

theorem Listing.sink_accepts : Listing.sink.Accepts where
  add _ _ := rfl
  supersede _ _ := rfl

theorem Listing.run_sink (listing : Listing) (calls : List Call) :
    (Listing.sink.run listing calls).entries = listing.entries ++ Call.entries calls := by
  induction calls generalizing listing with
  | nil => exact (List.append_nil _).symm
  | cons c calls ih =>
      rw [Sink.run_cons, ih]
      cases c with
      | add d => exact List.append_assoc listing.entries [d] (Call.entries calls)
      | enter root => rw [Call.entries_cons_enter]; rfl
      | leave => rfl

end ArchivePlan
