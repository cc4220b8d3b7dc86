import ArchivePlan.Archive
import ArchivePlan.Proofs.PiecewiseDigests
import Mathlib.Data.List.Dedup
import Mathlib.Data.List.Induction

/-! # Digests as snapshots

Between two queries to a cache the file system may change in any way, so each query comes with the
file system of its time (`Inquiry`).  `Cache.Looks` says all that looking up a file can come to: the
digest is kept, or the file is read, or it cannot be read.  What a query changes follows from that
(`Cache.answer_changes`).

After any history the cache keeps under each key the digest of the content that the first successful
lookup under the key read, nothing else, and its counters account for every successful lookup
(`Cache.Reflects`).  So the digest that a lookup gets is a snapshot, taken when a lookup under the
same key first succeeded (`Cache.answer_of_history`). -/

namespace ArchivePlan

/-- What digests are kept under: the components of a location, and an algorithm. -/
abbrev DigestKey := (Bool × List Bytes) × Algorithm

/-- What a cache can be asked for. -/
inductive Query where
  | file (location : Location) (algorithm : Algorithm)
  | content (content : Content) (algorithm : Algorithm)

/-- A query with the file system as it is when it comes. -/
structure Inquiry where
  fs : FileSystem
  query : Query

namespace Query

def lookup? : Query → Option (Location × Algorithm)
  | .file l algorithm => some (l, algorithm)
  | .content (.file l) algorithm => some (l, algorithm)
  | .content _ _ => none

def key? (query : Query) : Option DigestKey :=
  query.lookup?.map fun lookup => (lookup.1.key, lookup.2)

theorem key?_of_lookup? {query : Query} {l : Location} {algorithm : Algorithm}
    (h : query.lookup? = some (l, algorithm)) : query.key? = some (l.key, algorithm) := by
  rw [key?, h, Option.map_some]

/-- The digest of content that is no file. -/
def ownDigest : Query → Option String
  | .content (.bytes bytes) algorithm => some (algorithm.hexDigest bytes)
  | _ => none

end Query

/-- What a query reads under a key if it is a lookup there and not answered from a cache. -/
def Inquiry.reads (inquiry : Inquiry) (key : DigestKey) : Option Bytes :=
  match inquiry.query.lookup? with
  | some (l, algorithm) => if (l.key, algorithm) = key then (inquiry.fs.read l).toOption else none
  | none => none

/-- The content that was there when a lookup under a key could first be read. -/
def firstRead (history : List Inquiry) (key : DigestKey) : Option Bytes :=
  history.findSome? fun inquiry => inquiry.reads key

namespace Cache

def answer (cache : Cache) (inquiry : Inquiry) : Cache × Except IoError (Option String) :=
  match inquiry.query with
  | .file l algorithm =>
    let (cache, digest) := cache.fileDigest inquiry.fs l algorithm
    (cache, digest.map some)
  | .content content algorithm => cache.contentDigest inquiry.fs content algorithm

def after (history : List Inquiry) : Cache :=
  history.foldl (fun cache inquiry => (cache.answer inquiry).1) {}

theorem after_concat (history : List Inquiry) (inquiry : Inquiry) :
    after (history ++ [inquiry]) = ((after history).answer inquiry).1 := by
  rw [after, List.foldl_append]
  rfl

/-- The key under which a query finds the digest of a file, if it does. -/
def found? (cache : Cache) (inquiry : Inquiry) : Option DigestKey :=
  match (cache.answer inquiry).2 with
  | .ok _ => inquiry.query.key?
  | .error _ => none

/-- The keys under which queries find the digests of files, one for each query that does. -/
def foundFrom (cache : Cache) : List Inquiry → List DigestKey
  | [] => []
  | inquiry :: rest =>
    (cache.found? inquiry).toList ++ foundFrom (cache.answer inquiry).1 rest

def found (history : List Inquiry) : List DigestKey :=
  foundFrom {} history

theorem foundFrom_append (cache : Cache) (history more : List Inquiry) :
    cache.foundFrom (history ++ more) = cache.foundFrom history ++
      (history.foldl (fun cache inquiry => (cache.answer inquiry).1) cache).foundFrom more := by
  induction history generalizing cache with
  | nil => rfl
  | cons inquiry rest ih =>
      rw [List.cons_append, foundFrom, foundFrom, List.foldl_cons, ih, List.append_assoc]

theorem found_concat (history : List Inquiry) (inquiry : Inquiry) :
    found (history ++ [inquiry]) = found history ++ ((after history).found? inquiry).toList := by
  rw [found, foundFrom_append]
  exact congrArg _ (List.append_nil _)

variable {cache : Cache} {inquiry : Inquiry} {l : Location} {algorithm : Algorithm}

/-! ### One query -/

/-- What looking up the digest of a file comes to. -/
inductive Looks (cache : Cache) (fs : FileSystem) (l : Location) (algorithm : Algorithm) :
    Cache × Except IoError String → Prop
  | hit {digest : String} (kept : cache.digests.lookup (l.key, algorithm) = some digest) :
      Looks cache fs l algorithm ({ cache with hits := cache.hits + 1 }, .ok digest)
  | read {content : Bytes} (missing : cache.digests.lookup (l.key, algorithm) = none)
      (readable : fs.read l = .ok content) :
      Looks cache fs l algorithm
        ({ cache with
            digests := ((l.key, algorithm), algorithm.hexDigest content) :: cache.digests },
          .ok (algorithm.hexDigest content))
  | fail {e : IoError} (missing : cache.digests.lookup (l.key, algorithm) = none)
      (unreadable : fs.read l = .error e) : Looks cache fs l algorithm (cache, .error e)

theorem looks (cache : Cache) (fs : FileSystem) (l : Location) (algorithm : Algorithm) :
    cache.Looks fs l algorithm (cache.fileDigest fs l algorithm) := by
  unfold fileDigest FileSystem.readPieces
  cases hkept : cache.digests.lookup (l.key, algorithm) with
  | some digest => exact .hit hkept
  | none =>
      cases hread : fs.read l with
      | error e => exact .fail hkept hread
      | ok content =>
          dsimp only [Except.map]
          rw [algorithm.hexDigestPieces_eq, FileSystem.flatten_pieces]
          exact .read hkept hread

theorem answer_of_lookup? (h : inquiry.query.lookup? = some (l, algorithm)) :
    cache.answer inquiry = ((cache.fileDigest inquiry.fs l algorithm).1,
      (cache.fileDigest inquiry.fs l algorithm).2.map some) := by
  obtain ⟨fs, query⟩ := inquiry
  cases query with
  | file l algorithm =>
      cases h
      rfl
  | content content algorithm =>
      cases content <;> cases h
      rfl

theorem answer_of_lookup?_none (h : inquiry.query.lookup? = none) :
    cache.answer inquiry = (cache, .ok inquiry.query.ownDigest) := by
  obtain ⟨fs, query⟩ := inquiry
  cases query with
  | file l algorithm => cases h
  | content content algorithm =>
      cases content with
      | file l => cases h
      | bytes _ | link _ | none => rfl

theorem reads_of_lookup? (h : inquiry.query.lookup? = some (l, algorithm)) (key : DigestKey) :
    inquiry.reads key =
      if (l.key, algorithm) = key then (inquiry.fs.read l).toOption else none := by
  unfold Inquiry.reads
  rw [h]

theorem reads_eq_some_iff {key : DigestKey} {content : Bytes} :
    inquiry.reads key = some content ↔ ∃ l algorithm,
      inquiry.query.lookup? = some (l, algorithm) ∧ (l.key, algorithm) = key ∧
      inquiry.fs.read l = .ok content := by
  have htoOption : ∀ result : Except IoError Bytes,
      result.toOption = some content ↔ result = .ok content := by
    intro result
    cases result <;> simp [Except.toOption]
  unfold Inquiry.reads
  cases inquiry.query.lookup? with
  | none => simp
  | some lookup =>
      obtain ⟨l, algorithm⟩ := lookup
      simp only [Option.ite_none_right_eq_some, htoOption, Option.some.injEq, Prod.mk.injEq]
      constructor
      · rintro ⟨hkey, hread⟩
        exact ⟨l, algorithm, ⟨rfl, rfl⟩, hkey, hread⟩
      · rintro ⟨l', algorithm', ⟨rfl, rfl⟩, hkey, hread⟩
        exact ⟨hkey, hread⟩

/-- What a query changes: it is one more hit, it adds what it read, or it leaves all as it was. -/
theorem answer_changes (cache : Cache) (inquiry : Inquiry) :
    (∃ key, cache.found? inquiry = some key ∧ cache.digests.lookup key ≠ none ∧
      (∀ other ≠ key, inquiry.reads other = none) ∧
      (cache.answer inquiry).1 = { cache with hits := cache.hits + 1 }) ∨
    (∃ key content, cache.found? inquiry = some key ∧ cache.digests.lookup key = none ∧
      inquiry.reads key = some content ∧ (∀ other ≠ key, inquiry.reads other = none) ∧
      (cache.answer inquiry).1 =
        { cache with digests := (key, key.2.hexDigest content) :: cache.digests }) ∨
    cache.found? inquiry = none ∧ (∀ key, inquiry.reads key = none) ∧
      (cache.answer inquiry).1 = cache := by
  unfold found?
  cases hlookup : inquiry.query.lookup? with
  | none =>
      rw [answer_of_lookup?_none hlookup]
      refine Or.inr (Or.inr ⟨by rw [Query.key?, hlookup]; rfl, fun key => ?_, rfl⟩)
      unfold Inquiry.reads
      rw [hlookup]
  | some lookup =>
      obtain ⟨l, algorithm⟩ := lookup
      have hkey := Query.key?_of_lookup? hlookup
      have hreads := reads_of_lookup? hlookup
      have hother : ∀ other ≠ (l.key, algorithm), inquiry.reads other = none :=
        fun other hne => (hreads other).trans (if_neg hne.symm)
      have hlooks := cache.looks inquiry.fs l algorithm
      rw [answer_of_lookup? hlookup]
      generalize cache.fileDigest inquiry.fs l algorithm = result at hlooks ⊢
      cases hlooks with
      | hit kept => exact Or.inl ⟨_, hkey, kept ▸ Option.some_ne_none _, hother, rfl⟩
      | @read content missing readable =>
          refine Or.inr (Or.inl ⟨_, content, hkey, missing, ?_, hother, rfl⟩)
          rw [hreads, if_pos rfl, readable]
          rfl
      | fail missing unreadable =>
          refine Or.inr (Or.inr ⟨rfl, fun key => ?_, rfl⟩)
          rw [hreads, unreadable]
          split_ifs <;> rfl

theorem reads_of_key?_ne {key : DigestKey} (h : inquiry.query.key? ≠ some key) :
    inquiry.reads key = none := by
  by_contra hread
  obtain ⟨content, hsome⟩ := Option.ne_none_iff_exists'.mp hread
  obtain ⟨l, algorithm, hlookup, rfl, -⟩ := reads_eq_some_iff.mp hsome
  exact h (Query.key?_of_lookup? hlookup)

/-! ### A history of queries -/

theorem firstRead_concat (history : List Inquiry) (inquiry : Inquiry) (key : DigestKey) :
    firstRead (history ++ [inquiry]) key = (firstRead history key).or (inquiry.reads key) := by
  rw [firstRead, List.findSome?_append, List.findSome?_singleton]
  rfl

/-- A cache keeps under each key the digest of what was first read there, and counts the queries
that found the digest of a file. -/
structure Reflects (cache : Cache) (history : List Inquiry) : Prop where
  lookup : ∀ key, cache.digests.lookup key = (firstRead history key).map key.2.hexDigest
  keys : cache.digests.map (·.1) = (found history).reverse.dedup
  count : cache.hits + cache.size = (found history).length

theorem mem_keys_iff {key : DigestKey} :
    key ∈ cache.digests.map (·.1) ↔ cache.digests.lookup key ≠ none := by
  rw [← Option.isSome_iff_ne_none, List.lookup_isSome_iff, List.mem_map]
  simp only [beq_iff_eq, @eq_comm _ key]

namespace Reflects

variable {history : List Inquiry}

/-- No digest is kept where nothing was read. -/
theorem lookup_eq_none_iff (h : cache.Reflects history) {key : DigestKey} :
    cache.digests.lookup key = none ↔ firstRead history key = none := by
  rw [h.lookup, Option.map_eq_none_iff]

theorem mem_found_iff (h : cache.Reflects history) {key : DigestKey} :
    key ∈ found history ↔ cache.digests.lookup key ≠ none := by
  rw [← mem_keys_iff, h.keys, List.mem_dedup, List.mem_reverse]

theorem concat (h : (after history).Reflects history) (inquiry : Inquiry) :
    (after (history ++ [inquiry])).Reflects (history ++ [inquiry]) := by
  have hcount := h.count
  have hfound := found_concat history inquiry
  rw [after_concat]
  rcases answer_changes (after history) inquiry with
    ⟨key, hkey, hkept, hother, heq⟩ | ⟨key, content, hkey, hmissing, hread, hother, heq⟩ |
    ⟨hkey, hreads, heq⟩
  all_goals
    rw [hkey] at hfound
    rw [heq]
  · -- a hit: what is in the file by now comes behind what was read first
    refine ⟨fun k => ?_, ?_, ?_⟩
    · rw [firstRead_concat]
      by_cases hk : k = key
      · subst hk
        obtain ⟨content, hfirst⟩ :=
          Option.ne_none_iff_exists'.mp (mt h.lookup_eq_none_iff.mpr hkept)
        rw [hfirst, Option.some_or, ← hfirst]
        exact h.lookup k
      · rw [hother k hk, Option.or_none]
        exact h.lookup k
    · have hmem : key ∈ (found history).reverse := List.mem_reverse.mpr (h.mem_found_iff.mpr hkept)
      rw [hfound, Option.toList_some, List.reverse_concat, List.dedup_cons_of_mem hmem]
      exact h.keys
    · rw [hfound, List.length_append, ← hcount]
      exact Nat.add_right_comm _ _ _
  · -- a file is read, the first one under its key
    refine ⟨fun k => ?_, ?_, ?_⟩
    · rw [firstRead_concat, List.lookup_cons]
      by_cases hk : k = key
      · subst hk
        rw [beq_self_eq_true, h.lookup_eq_none_iff.mp hmissing, hread]
        rfl
      · rw [beq_false_of_ne hk, hother k hk, Option.or_none]
        exact h.lookup k
    · have hmem : key ∉ (found history).reverse := fun hmem =>
        h.mem_found_iff.mp (List.mem_reverse.mp hmem) hmissing
      rw [hfound, Option.toList_some, List.reverse_concat, List.dedup_cons_of_notMem hmem,
        List.map_cons, h.keys]
    · rw [hfound, List.length_append, ← hcount]
      rfl
  · -- nothing is read and nothing is found
    refine ⟨fun k => ?_, ?_, ?_⟩
    · rw [firstRead_concat, hreads, Option.or_none]
      exact h.lookup k
    · rw [hfound, Option.toList_none, List.append_nil]
      exact h.keys
    · rw [hfound, Option.toList_none, List.append_nil]
      exact hcount

end Reflects

theorem reflects (history : List Inquiry) : (after history).Reflects history := by
  induction history using List.reverseRecOn with
  | nil => exact ⟨fun _ => rfl, rfl, rfl⟩
  | append_singleton history inquiry ih => exact ih.concat inquiry

/-! ### Answers after a history -/

/-- A lookup gets the digest of what was first read under its key; if there is nothing yet, the
file is read. -/
theorem fileDigest_after (history : List Inquiry) (fs : FileSystem) (l : Location)
    (algorithm : Algorithm) :
    ((after history).fileDigest fs l algorithm).2 =
      match firstRead history (l.key, algorithm) with
      | some content => .ok (algorithm.hexDigest content)
      | none => fs.digest l algorithm := by
  unfold fileDigest FileSystem.digest
  rw [(reflects history).lookup]
  cases firstRead history (l.key, algorithm) with
  | some content => rfl
  | none =>
      dsimp only [Option.map_none]
      cases fs.readPieces l <;> rfl

theorem answer_after (history : List Inquiry)
    (hlookup : inquiry.query.lookup? = some (l, algorithm)) :
    ((after history).answer inquiry).2 =
      match firstRead history (l.key, algorithm) with
      | some content => .ok (some (algorithm.hexDigest content))
      | none => (inquiry.fs.digest l algorithm).map some := by
  rw [answer_of_lookup? hlookup, fileDigest_after]
  cases firstRead history (l.key, algorithm) <;> rfl

theorem firstRead_filter (history : List Inquiry) (key : DigestKey) :
    firstRead (history.filter fun other => other.query.key? = some key) key =
      firstRead history key := by
  induction history with
  | nil => rfl
  | cons inquiry rest ih =>
      unfold firstRead at ih ⊢
      rw [List.filter_cons, List.findSome?_cons]
      split_ifs with hkey
      · rw [List.findSome?_cons, ih]
      · rw [reads_of_key?_ne (by simpa using hkey), ih]

/-- A query under a key after which something was read there: the first one that found a digest read
its content. -/
theorem exists_first {history : List Inquiry} {key : DigestKey} {content : Bytes}
    (h : firstRead history key = some content) :
    ∃ before first rest l, history = before ++ first :: rest ∧ key ∉ found before ∧
      (after before).found? first = some key ∧ first.query.lookup? = some (l, key.2) ∧
      l.key = key.1 ∧ first.fs.read l = .ok content := by
  obtain ⟨before, first, rest, hhistory, hreads, hbefore⟩ := List.findSome?_eq_some_iff.mp h
  have hnone : firstRead before key = none := List.findSome?_eq_none_iff.mpr hbefore
  obtain ⟨l, algorithm, hlookup, rfl, hread⟩ := reads_eq_some_iff.mp hreads
  refine ⟨before, first, rest, l, hhistory, ?_, ?_, hlookup, rfl, hread⟩
  · exact fun hfound =>
      (reflects before).mem_found_iff.mp hfound ((reflects before).lookup_eq_none_iff.mpr hnone)
  · unfold found?
    rw [answer_after before hlookup, hnone, FileSystem.digest_eq_map_read, hread,
      Query.key?_of_lookup? hlookup]
    rfl

/-- A digest is that of what was read first, by this query or before. -/
theorem firstRead_of_answer {history : List Inquiry} {result : Option String}
    (hlookup : inquiry.query.lookup? = some (l, algorithm))
    (h : ((after history).answer inquiry).2 = .ok result) :
    ∃ content, firstRead (history ++ [inquiry]) (l.key, algorithm) = some content ∧
      result = some (algorithm.hexDigest content) := by
  rw [answer_after history hlookup, FileSystem.digest_eq_map_read] at h
  rw [firstRead_concat, reads_of_lookup? hlookup, if_pos rfl]
  cases hfirst : firstRead history (l.key, algorithm) with
  | some content =>
      rw [hfirst] at h
      exact ⟨content, rfl, (Except.ok.inj h).symm⟩
  | none =>
      rw [hfirst] at h
      cases hread : inquiry.fs.read l with
      | error e =>
          rw [hread] at h
          cases h
      | ok content =>
          rw [hread] at h
          exact ⟨content, rfl, (Except.ok.inj h).symm⟩

/-- A query fails if it looks up a file of which nothing is kept and which cannot be read. -/
theorem answer_error {e : IoError} (h : (cache.answer inquiry).2 = .error e) :
    (cache.answer inquiry).1 = cache ∧ ∃ l algorithm,
      inquiry.query.lookup? = some (l, algorithm) ∧ inquiry.fs.read l = .error e ∧
      cache.digests.lookup (l.key, algorithm) = none := by
  cases hlookup : inquiry.query.lookup? with
  | none =>
      rw [answer_of_lookup?_none hlookup] at h
      cases h
  | some lookup =>
      obtain ⟨l, algorithm⟩ := lookup
      have hlooks := cache.looks inquiry.fs l algorithm
      rw [answer_of_lookup? hlookup] at h ⊢
      generalize cache.fileDigest inquiry.fs l algorithm = result at hlooks h ⊢
      cases hlooks with
      | hit | read => cases h
      | fail missing unreadable =>
          cases h
          exact ⟨rfl, l, algorithm, rfl, unreadable, missing⟩

/-- **Digests as snapshots.**  Let queries come one after the other, each at a file system of its
own, and then one more.  If it looks up a file and gets a digest, this is the digest of the content
that was read by the first lookup under the same key to find one, which may be the query itself.
Queries under other keys have no part in the answer.  A lookup that fails does so because the file
cannot be read now; it leaves the cache as it was, and the next lookup under its key reads the file
again.  The cache holds as many digests as there are keys under which lookups found one, and these
and the hits are as many as such lookups.  A query that looks up no file is answered without the
cache. -/
theorem answer_of_history (history : List Inquiry) (inquiry : Inquiry) :
    (∀ l algorithm result, inquiry.query.lookup? = some (l, algorithm) →
      ((after history).answer inquiry).2 = .ok result →
      ∃ before first rest l' content, history ++ [inquiry] = before ++ first :: rest ∧
        (l.key, algorithm) ∉ found before ∧
        (after before).found? first = some (l.key, algorithm) ∧
        first.query.lookup? = some (l', algorithm) ∧ l'.key = l.key ∧
        first.fs.read l' = .ok content ∧ result = some (algorithm.hexDigest content)) ∧
    ((after (history.filter fun other => other.query.key? = inquiry.query.key?)).answer inquiry).2 =
      ((after history).answer inquiry).2 ∧
    (∀ e, ((after history).answer inquiry).2 = .error e →
      ((after history).answer inquiry).1 = after history ∧
      ∃ l algorithm, inquiry.query.lookup? = some (l, algorithm) ∧ inquiry.fs.read l = .error e ∧
        ∀ others retry l', (∀ other ∈ others, other.query.key? ≠ some (l.key, algorithm)) →
          retry.query.lookup? = some (l', algorithm) → l'.key = l.key →
          ((after (history ++ inquiry :: others)).answer retry).2 =
            (retry.fs.digest l' algorithm).map some) ∧
    (after history).size = (found history).dedup.length ∧
    (after history).hits + (after history).size = (found history).length ∧
    (inquiry.query.lookup? = none →
      (after history).answer inquiry = (after history, .ok inquiry.query.ownDigest)) := by
  have hreflects := reflects history
  refine ⟨?_, ?_, ?_, ?_, hreflects.count, answer_of_lookup?_none⟩
  · intro l algorithm result hlookup hanswer
    obtain ⟨content, hfirst, hresult⟩ := firstRead_of_answer hlookup hanswer
    obtain ⟨before, first, rest, l', hhistory, hbefore, hfound, hlookup', hkey, hread⟩ :=
      exists_first hfirst
    exact ⟨before, first, rest, l', content, hhistory, hbefore, hfound, hlookup', hkey, hread,
      hresult⟩
  · cases hlookup : inquiry.query.lookup? with
    | none => rw [answer_of_lookup?_none hlookup, answer_of_lookup?_none hlookup]
    | some lookup =>
        rw [answer_after _ hlookup, answer_after _ hlookup, Query.key?_of_lookup? hlookup,
          firstRead_filter]
  · intro e herror
    obtain ⟨hunchanged, l, algorithm, hlookup, hunread, hmissing⟩ := answer_error herror
    refine ⟨hunchanged, l, algorithm, hlookup, hunread, ?_⟩
    intro others retry l' hothers hretry hkey
    -- nothing was read under the key: not before, not by the query that failed, not since
    have hnone : firstRead (history ++ inquiry :: others) (l.key, algorithm) = none := by
      rw [hreflects.lookup_eq_none_iff] at hmissing
      have hreads : inquiry.reads (l.key, algorithm) = none := by
        rw [reads_of_lookup? hlookup, if_pos rfl, hunread]
        rfl
      have hsince : firstRead others (l.key, algorithm) = none :=
        List.findSome?_eq_none_iff.mpr fun other hother => reads_of_key?_ne (hothers other hother)
      unfold firstRead at hmissing hsince ⊢
      rw [List.findSome?_append, hmissing, List.findSome?_cons, hreads, hsince]
      rfl
    rw [answer_after _ hretry, hkey, hnone]
  · have hsize := congrArg List.length hreflects.keys
    rw [List.length_map] at hsize
    exact hsize.trans (List.reverse_perm _).dedup.length_eq

end Cache

end ArchivePlan
