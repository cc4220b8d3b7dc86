import ArchivePlan.Proofs.AddedParents

/-! # Everything a sink can be asked

Besides the calls that fill a sink, a layer around it may ask for a directory in the place of one
that is there.  A `Request` is any of the four, and `serveAll` is the state that requests lead to.

If the sink below refuses nothing, a layer over it never stops halfway: it introduces the
directories of a path one by one, each if it is wanted (`addParents_of_accepts`), and then declares
the entry (`add_of_accepts`).  Afterwards every directory of the path that the layer covers is
counted as emitted (`mem_emitted_of_covers`), so introducing them once more does nothing
(`foldl_introduce_eq_self`). -/

namespace ArchivePlan

/-- What a sink can be asked. -/
inductive Request where
  | add (d : Descriptor)
  | supersede (d : Descriptor)
  | enter (root : String)
  | leave
  deriving DecidableEq

namespace Sink

variable {σ : Type} (sink : Sink σ)

def serve (state : σ) : Request → Reply σ
  | .add d => sink.add state d
  | .supersede d => sink.supersede state d
  | .enter root => ⟨sink.enter state root, none⟩
  | .leave => ⟨sink.leave state, none⟩

/-- The state that requests lead to, one after the other whatever the answers are. -/
def serveAll (state : σ) (requests : List Request) : σ :=
  requests.foldl (fun state request => (sink.serve state request).state) state

variable {sink}

/-- What every request preserves holds of every state that requests lead to. -/
theorem serveAll_induction {P : σ → Prop} {state : σ} (hstart : P state)
    (hstep : ∀ state request, P state → P (sink.serve state request).state)
    (requests : List Request) : P (sink.serveAll state requests) := by
  induction requests generalizing state with
  | nil => exact hstart
  | cons request rest ih => exact ih (hstep state request hstart)

end Sink

namespace ParentLayer

variable {σ : Type} (layer : ParentLayer) (inner : Sink σ)

/-- The state of a layer once it has met one of the directories of a path. -/
def introduce (state : Layered σ) (directory : String) : Layered σ :=
  if layer.wants state directory then {
    inner := (inner.add state.inner (layer.parentEntry directory)).state
    emitted := state.emitted.insert directory
    provisional := state.provisional.insert directory
    collection := state.collection }
  else state

/-- The state of a layer once an entry follows the directories of its path. -/
def declare (state : Layered σ) (d : Descriptor) : Layered σ :=
  if d.isDirectory = true ∧ d.path ∈ state.provisional then {
    state with
    inner := (inner.supersede state.inner d).state
    provisional := state.provisional.filter (· ≠ d.path) }
  else {
    state with
    inner := (inner.add state.inner d).state
    emitted := if d.isDirectory then state.emitted.insert d.path else state.emitted }

variable {inner}

@[simp] theorem sink_add (state : Layered σ) (d : Descriptor) :
    (layer.sink inner).add state d = layer.add inner state d := rfl

@[simp] theorem sink_supersede (state : Layered σ) (d : Descriptor) :
    (layer.sink inner).supersede state d = supersede inner state d := rfl

/-! ### Over a sink that refuses nothing -/

theorem addParents_of_accepts (h : inner.Accepts) (state : Layered σ) (directories : List String) :
    layer.addParents inner state directories =
      ⟨directories.foldl (layer.introduce inner) state, none⟩ := by
  induction directories generalizing state with
  | nil => rfl
  | cons directory rest ih =>
      rw [List.foldl_cons, ← ih, addParents, introduce]
      split
      · simp only [layer.parent_eq, h.add]
      · rfl

theorem add_of_accepts (h : inner.Accepts) (state : Layered σ) (d : Descriptor) :
    layer.add inner state d =
      ⟨declare inner ((Target.ancestors d.path).foldl (layer.introduce inner) state) d, none⟩ := by
  unfold add
  rw [layer.addParents_of_accepts h]
  unfold declare
  dsimp only [Reply.andThen]
  split
  · rw [Reply.map, h.supersede]
  · rw [Reply.map, h.add]
    split
    · rfl
    · rfl

/-! ### Introducing directories -/

section

variable {layer} {state : Layered σ} {directory path : String} {directories : List String}

@[simp] theorem introduce_collection :
    (layer.introduce inner state directory).collection = state.collection := by
  unfold introduce
  split <;> rfl

theorem mem_introduce_emitted :
    path ∈ (layer.introduce inner state directory).emitted ↔
      path ∈ state.emitted ∨ layer.wants state directory = true ∧ path = directory := by
  unfold introduce
  split
  · next hwants => simp [List.mem_insert_iff, hwants, or_comm]
  · next hwants => simp [hwants]

theorem mem_introduce_provisional :
    path ∈ (layer.introduce inner state directory).provisional ↔
      path ∈ state.provisional ∨ layer.wants state directory = true ∧ path = directory := by
  unfold introduce
  split
  · next hwants => simp [List.mem_insert_iff, hwants, or_comm]
  · next hwants => simp [hwants]

@[simp] theorem foldl_introduce_collection :
    (directories.foldl (layer.introduce inner) state).collection = state.collection := by
  induction directories generalizing state with
  | nil => rfl
  | cons directory rest ih => rw [List.foldl_cons, ih, introduce_collection]

theorem mem_emitted_foldl_introduce (h : path ∈ state.emitted) :
    path ∈ (directories.foldl (layer.introduce inner) state).emitted := by
  induction directories generalizing state with
  | nil => exact h
  | cons directory rest ih => exact ih (mem_introduce_emitted.mpr (Or.inl h))

theorem mem_provisional_foldl_introduce (hpath : path ∉ directories) :
    path ∈ (directories.foldl (layer.introduce inner) state).provisional ↔
      path ∈ state.provisional := by
  induction directories generalizing state with
  | nil => exact Iff.rfl
  | cons directory rest ih =>
      obtain ⟨hne, hrest⟩ := not_or.mp (mt List.mem_cons.mpr hpath)
      rw [List.foldl_cons, ih hrest, mem_introduce_provisional]
      exact or_iff_left fun hself => hne hself.2

theorem mem_emitted_of_covers (hmem : path ∈ directories)
    (hcovers : layer.covers state.collection path = true) :
    path ∈ (directories.foldl (layer.introduce inner) state).emitted := by
  induction directories generalizing state with
  | nil => cases hmem
  | cons directory rest ih =>
      rw [List.foldl_cons]
      rcases List.mem_cons.mp hmem with rfl | hmem
      · apply mem_emitted_foldl_introduce
        rw [mem_introduce_emitted, layer.wants_iff]
        by_cases hemitted : path ∈ state.emitted
        · exact Or.inl hemitted
        · exact Or.inr ⟨⟨hemitted, hcovers⟩, rfl⟩
      · apply ih hmem
        rwa [introduce_collection]

theorem foldl_introduce_eq_self
    (h : ∀ directory ∈ directories, layer.covers state.collection directory = true →
      directory ∈ state.emitted) :
    directories.foldl (layer.introduce inner) state = state := by
  induction directories with
  | nil => rfl
  | cons directory rest ih =>
      have hself : layer.introduce inner state directory = state := by
        refine if_neg fun hwants => ?_
        obtain ⟨hfresh, hcovers⟩ := layer.wants_iff.mp hwants
        exact hfresh (h directory List.mem_cons_self hcovers)
      rw [List.foldl_cons, hself]
      exact ih fun other hother => h other (List.mem_cons_of_mem _ hother)

end

end ParentLayer

end ArchivePlan
