import ArchivePlan.Glob.Match
import Mathlib.Data.List.Infix

/-! # What a pattern matches

`Matches` says without a search which names tokens stand for: each star leaves a rest of the name to
the tokens behind it.  The search tries the rests that a star can leave from the longest on
(`IsFirst`), and it stops at the first that runs out of characters.  That gives up nothing
(`tells_matchTokens`): a name that runs out before some tokens has no rest that matches them, except
that `**` looks only at rests that are whole components.  So it matters that `**` stands where a
component begins (`aligned`); then the search finds a match if and only if there is one
(`matchTokens_eq_matched_iff`). -/

namespace ArchivePlan.Glob

/-! ### The names that tokens stand for -/

/-- What `*` can leave of a name: what is behind some of its characters, none of them a slash. -/
def RunLeaves (name rest : List Char) : Prop :=
  ∃ taken, '/' ∉ taken ∧ name = taken ++ rest

/-- What `**` can leave of a name: all of it, what is behind one of its slashes, or nothing. -/
inductive DeepLeaves (name : List Char) : List Char → Prop
  | all : DeepLeaves name name
  | behind {before rest : List Char} (h : name = before ++ '/' :: rest) : DeepLeaves name rest
  | nothing : DeepLeaves name []

/-- A name is one of those that tokens stand for. -/
inductive Matches (caseSensitive : Bool) : List Token → List Char → Prop
  | nil : Matches caseSensitive [] []
  | one {token : Token} {tokens : List Token} {c : Char} {rest : List Char}
    (hadmits : token.admits caseSensitive c = true) (h : Matches caseSensitive tokens rest) :
    Matches caseSensitive (token :: tokens) (c :: rest)
  | run {tokens : List Token} {name rest : List Char} (hleaves : RunLeaves name rest)
    (h : Matches caseSensitive tokens rest) : Matches caseSensitive (.run :: tokens) name
  | deep {tokens : List Token} {name rest : List Char} (hleaves : DeepLeaves name rest)
    (h : Matches caseSensitive tokens rest) : Matches caseSensitive (.deep :: tokens) name

variable {caseSensitive : Bool} {tokens : List Token} {name rest : List Char}

theorem matches_nil_iff : Matches caseSensitive [] name ↔ name = [] := by
  constructor
  · rintro ⟨⟩
    rfl
  · rintro rfl
    exact .nil

theorem matches_run_iff :
    Matches caseSensitive (.run :: tokens) name ↔
      ∃ rest, RunLeaves name rest ∧ Matches caseSensitive tokens rest := by
  constructor
  · intro h
    cases h with
    | one hadmits h => cases hadmits
    | run hleaves h => exact ⟨_, hleaves, h⟩
  · rintro ⟨rest, hleaves, h⟩
    exact .run hleaves h

theorem matches_deep_iff :
    Matches caseSensitive (.deep :: tokens) name ↔
      ∃ rest, DeepLeaves name rest ∧ Matches caseSensitive tokens rest := by
  constructor
  · intro h
    cases h with
    | one hadmits h => cases hadmits
    | deep hleaves h => exact ⟨_, hleaves, h⟩
  · rintro ⟨rest, hleaves, h⟩
    exact .deep hleaves h

def Token.isOne : Token → Bool
  | .run => false
  | .deep => false
  | _ => true

theorem matches_one_iff {token : Token} (hone : token.isOne = true) :
    Matches caseSensitive (token :: tokens) name ↔
      ∃ c rest, name = c :: rest ∧ token.admits caseSensitive c = true ∧
        Matches caseSensitive tokens rest := by
  constructor
  · intro h
    cases h with
    | one hadmits h => exact ⟨_, _, rfl, hadmits, h⟩
    | run hleaves h => cases hone
    | deep hleaves h => cases hone
  · rintro ⟨c, rest, rfl, hadmits, h⟩
    exact .one hadmits h

/-! ### Rests -/

theorem RunLeaves.suffix (h : RunLeaves name rest) : rest <:+ name := by
  obtain ⟨taken, -, rfl⟩ := h
  exact List.suffix_append taken rest

theorem DeepLeaves.suffix (h : DeepLeaves name rest) : rest <:+ name := by
  cases h with
  | all => exact List.suffix_rfl
  | behind h =>
      rw [h]
      exact (List.suffix_cons '/' rest).trans (List.suffix_append _ _)
  | nothing => exact List.nil_suffix

theorem DeepLeaves.trans {other : List Char} (h : DeepLeaves name rest)
    (h' : DeepLeaves rest other) : DeepLeaves name other := by
  cases h' with
  | all => exact h
  | nothing => exact .nothing
  | behind hrest =>
      cases h with
      | all => exact .behind hrest
      | nothing => simp at hrest
      | behind hname =>
          rw [hrest, ← List.cons_append, ← List.append_assoc] at hname
          exact .behind hname

theorem DeepLeaves.of_length_le {first second : List Char} (hfirst : first <:+ name)
    (hsecond : DeepLeaves name second) (hle : second.length ≤ first.length) :
    DeepLeaves first second := by
  cases hsecond with
  | nothing => exact .nothing
  | all =>
      rw [hfirst.eq_of_length_le hle]
      exact .all
  | behind hname =>
      have hslash : '/' :: second <:+ name := ⟨_, hname.symm⟩
      rcases Nat.lt_or_eq_of_le hle with hlt | heq
      · obtain ⟨before, hbefore⟩ := List.suffix_of_suffix_length_le hslash hfirst hlt
        exact .behind hbefore.symm
      · have hrest : second <:+ first :=
          List.suffix_of_suffix_length_le ((List.suffix_cons '/' second).trans hslash) hfirst hle
        rw [hrest.eq_of_length heq]
        exact .all

theorem RunLeaves.of_length_le {first second : List Char} (hfirst : first <:+ name)
    (hsecond : RunLeaves name second) (hle : second.length ≤ first.length) :
    RunLeaves name first := by
  obtain ⟨taken, hplain, hname⟩ := hsecond
  have hsuffix : second <:+ name := ⟨taken, hname.symm⟩
  obtain ⟨before, rfl⟩ := List.suffix_of_suffix_length_le hsuffix hfirst hle
  obtain ⟨front, rfl⟩ := hfirst
  refine ⟨front, fun hmem => hplain ?_, rfl⟩
  rw [← List.append_assoc, List.append_cancel_right_eq] at hname
  rw [← hname]
  exact List.mem_append_left _ hmem

/-! ### The search of a star -/

/-- What the tries of a star end in, the longest rest first: the outcome of the first that does not
fail. -/
def IsFirst (Leaves : List Char → Prop) (next : List Char → Outcome) (outcome : Outcome) : Prop :=
  (outcome = .failed → ∀ rest, Leaves rest → next rest = .failed) ∧
    (outcome ≠ .failed → ∃ rest, Leaves rest ∧ next rest = outcome ∧
      ∀ longer, Leaves longer → rest.length < longer.length → next longer = .failed)

variable {next : List Char → Outcome} {outcome : Outcome}

theorem isFirst_single {Leaves : List Char → Prop} (hleaves : ∀ rest, Leaves rest ↔ rest = name) :
    IsFirst Leaves next (next name) := by
  refine ⟨fun hfailed rest hrest => ?_, fun _ => ⟨name, (hleaves name).mpr rfl, rfl, ?_⟩⟩
  · rw [(hleaves rest).mp hrest]
    exact hfailed
  · intro longer hlonger hlt
    rw [(hleaves longer).mp hlonger] at hlt
    exact absurd hlt (lt_irrefl _)

theorem IsFirst.cons {Leaves Later : List Char → Prop} (h : IsFirst Later next outcome)
    (hleaves : ∀ rest, Leaves rest ↔ rest = name ∨ Later rest)
    (hlength : ∀ rest, Later rest → rest.length ≤ name.length) :
    IsFirst Leaves next (match next name with
      | .failed => outcome
      | outcome => outcome) := by
  obtain ⟨hnone, hsome⟩ := h
  cases hname : next name with
  | failed =>
      refine ⟨fun hfailed rest hrest => ?_, fun hne => ?_⟩
      · rcases (hleaves rest).mp hrest with rfl | hlater
        · exact hname
        · exact hnone hfailed rest hlater
      · obtain ⟨rest, hrest, houtcome, hlonger⟩ := hsome hne
        refine ⟨rest, (hleaves rest).mpr (.inr hrest), houtcome, fun longer hleft hlt => ?_⟩
        rcases (hleaves longer).mp hleft with rfl | hlater
        · exact hname
        · exact hlonger longer hlater hlt
  | matched | exhausted =>
      refine ⟨nofun, fun _ => ⟨name, (hleaves name).mpr (.inl rfl), hname, ?_⟩⟩
      intro longer hleft hlt
      rcases (hleaves longer).mp hleft with rfl | hlater
      · exact absurd hlt (lt_irrefl _)
      · exact absurd hlt (Nat.not_lt.mpr (hlength longer hlater))

theorem RunLeaves.length_le (h : RunLeaves name rest) : rest.length ≤ name.length :=
  h.suffix.length_le

theorem runLeaves_slash_iff : RunLeaves ('/' :: name) rest ↔ rest = '/' :: name := by
  constructor
  · rintro ⟨taken, hplain, hname⟩
    cases taken with
    | nil => exact hname.symm
    | cons c taken =>
        rw [List.cons_append, List.cons.injEq] at hname
        exact absurd (hname.1 ▸ List.mem_cons_self) hplain
  · rintro rfl
    exact ⟨[], List.not_mem_nil, rfl⟩

theorem runLeaves_cons_iff {c : Char} (hc : c ≠ '/') :
    RunLeaves (c :: name) rest ↔ rest = c :: name ∨ RunLeaves name rest := by
  constructor
  · rintro ⟨taken, hplain, hname⟩
    cases taken with
    | nil => exact .inl hname.symm
    | cons d taken =>
        rw [List.cons_append, List.cons.injEq] at hname
        exact .inr ⟨taken, fun hmem => hplain (List.mem_cons_of_mem _ hmem), hname.2⟩
  · rintro (rfl | ⟨taken, hplain, rfl⟩)
    · exact ⟨[], List.not_mem_nil, rfl⟩
    · refine ⟨c :: taken, ?_, rfl⟩
      rw [List.mem_cons, not_or]
      exact ⟨hc.symm, hplain⟩

theorem isFirst_run (next : List Char → Outcome) (name : List Char) :
    IsFirst (RunLeaves name) next (match next name with
      | .failed => stretchRun next name
      | outcome => outcome) := by
  induction name with
  | nil =>
      refine (isFirst_single fun rest => Iff.rfl).cons (fun rest => ?_) (fun rest h => by rw [h])
      simp [RunLeaves, eq_comm]
  | cons c name ih =>
      by_cases hc : c = '/'
      · subst hc
        have hsingle : IsFirst (RunLeaves ('/' :: name)) next (next ('/' :: name)) :=
          isFirst_single fun rest => runLeaves_slash_iff
        rw [stretchRun, if_pos rfl]
        cases hnext : next ('/' :: name) <;> rwa [hnext] at hsingle
      · rw [stretchRun, if_neg hc]
        exact ih.cons (fun rest => runLeaves_cons_iff hc)
          (fun rest h => h.length_le.trans (Nat.le_succ _))

/-- What `**` can leave once it has taken something: what is behind a slash, or nothing. -/
def LeavesBehind (name rest : List Char) : Prop :=
  rest = [] ∨ ∃ before, name = before ++ '/' :: rest

theorem deepLeaves_iff : DeepLeaves name rest ↔ rest = name ∨ LeavesBehind name rest := by
  constructor
  · rintro (_ | hname | _)
    · exact .inl rfl
    · exact .inr (.inr ⟨_, hname⟩)
    · exact .inr (.inl rfl)
  · rintro (rfl | rfl | ⟨before, hname⟩)
    · exact .all
    · exact .nothing
    · exact .behind hname

theorem DeepLeaves.length_le (h : DeepLeaves name rest) : rest.length ≤ name.length :=
  h.suffix.length_le

theorem leavesBehind_slash_iff :
    LeavesBehind ('/' :: name) rest ↔ rest = name ∨ LeavesBehind name rest := by
  constructor
  · rintro (rfl | ⟨before, hname⟩)
    · exact .inr (.inl rfl)
    · cases before with
      | nil => exact .inl (by simpa using hname.symm)
      | cons c before =>
          rw [List.cons_append, List.cons.injEq] at hname
          exact .inr (.inr ⟨before, hname.2⟩)
  · rintro (rfl | rfl | ⟨before, rfl⟩)
    · exact .inr ⟨[], rfl⟩
    · exact .inl rfl
    · exact .inr ⟨'/' :: before, rfl⟩

theorem leavesBehind_cons_iff {c : Char} (hc : c ≠ '/') :
    LeavesBehind (c :: name) rest ↔ LeavesBehind name rest := by
  refine or_congr_right ⟨?_, ?_⟩
  · rintro ⟨before, hname⟩
    cases before with
    | nil => exact absurd (List.cons.inj hname).1 hc
    | cons d before =>
        rw [List.cons_append, List.cons.injEq] at hname
        exact ⟨before, hname.2⟩
  · rintro ⟨before, rfl⟩
    exact ⟨c :: before, rfl⟩

theorem isFirst_stretchDeep (next : List Char → Outcome) (name : List Char) :
    IsFirst (LeavesBehind name) next (stretchDeep next name) := by
  induction name with
  | nil => exact isFirst_single fun rest => by simp [LeavesBehind]
  | cons c name ih =>
      by_cases hc : c = '/'
      · subst hc
        rw [stretchDeep, if_pos rfl]
        exact ih.cons (fun rest => leavesBehind_slash_iff)
          (fun rest h => (deepLeaves_iff.mpr (.inr h)).length_le)
      · rw [stretchDeep, if_neg hc]
        simpa only [leavesBehind_cons_iff hc, IsFirst] using ih

theorem isFirst_deep (next : List Char → Outcome) (name : List Char) :
    IsFirst (DeepLeaves name) next (match next name with
      | .failed => stretchDeep next name
      | outcome => outcome) :=
  (isFirst_stretchDeep next name).cons (fun _ => deepLeaves_iff)
    (fun _ h => (deepLeaves_iff.mpr (.inr h)).length_le)

/-! ### The whole search -/

def Token.opens : Token → Bool
  | .char c => c == '/'
  | .deep => true
  | _ => false

/-- `**` stands only where a component begins; `start` says whether one begins before the tokens. -/
def aligned : Bool → List Token → Bool
  | _, [] => true
  | start, token :: tokens => (start || token != .deep) && aligned token.opens tokens

/-- The rests that are of interest where tokens are tried: where a component begins those that `**`
can leave, and all others elsewhere. -/
def Remains (start : Bool) (name rest : List Char) : Prop :=
  if start = true then DeepLeaves name rest else rest <:+ name

theorem Remains.suffix {start : Bool} (h : Remains start name rest) : rest <:+ name := by
  cases start with
  | true => exact DeepLeaves.suffix h
  | false => exact h

/-- What the outcome of tokens on a name says: an exhausted try tells of all shorter rests too. -/
def Outcome.Tells (caseSensitive start : Bool) (tokens : List Token) (name : List Char) :
    Outcome → Prop
  | .matched => Matches caseSensitive tokens name
  | .failed => ¬Matches caseSensitive tokens name
  | .exhausted => ∀ rest, Remains start name rest → ¬Matches caseSensitive tokens rest

theorem foldCase_eq_slash_iff {c : Char} : foldCase c = '/' ↔ c = '/' := by
  constructor
  · intro h
    by_cases hletter : 'A' ≤ c ∧ c ≤ 'Z'
    · exfalso
      have hlow : 65 ≤ c.toNat := hletter.1
      have hhigh : c.toNat ≤ 90 := hletter.2
      rw [foldCase, if_pos hletter] at h
      have hvalid : (c.toNat + 32).isValidChar := .inl (by omega)
      have hvalue : (Char.ofNat (c.toNat + 32)).toNat = c.toNat + 32 := by
        rw [Char.ofNat, dif_pos hvalid]
        rfl
      rw [h] at hvalue
      have hslash : Char.toNat '/' = 47 := rfl
      omega
    · rwa [foldCase, if_neg hletter] at h
  · rintro rfl
    rfl

/-- Behind a slash a component begins: a token of one character that opens one is a slash. -/
theorem eq_slash_of_opens {token : Token} {c : Char} (hopens : token.opens = true)
    (hadmits : token.admits caseSensitive c = true) : c = '/' := by
  cases token with
  | char m =>
      obtain rfl : m = '/' := eq_of_beq hopens
      cases caseSensitive with
      | true => simpa [Token.admits, sameChar] using hadmits
      | false =>
          have hfold : foldCase c = foldCase '/' := by
            simpa [Token.admits, sameChar] using hadmits
          exact foldCase_eq_slash_iff.mp hfold
  | deep => cases hadmits
  | any | run | within members | outside members => cases hopens

theorem Remains.tail {start : Bool} {token : Token} {c d : Char}
    (h : Remains start (c :: name) (d :: rest)) (hd : token.admits caseSensitive d = true) :
    Remains token.opens name rest := by
  have hsuffix : d :: rest <:+ c :: name := h.suffix
  have hrest : d :: rest = c :: name ∨ d :: rest <:+ name := List.suffix_cons_iff.mp hsuffix
  cases hopens : token.opens with
  | false =>
      rcases hrest with heq | hlater
      · rw [(List.cons.inj heq).2]
        exact List.suffix_rfl
      · exact (List.suffix_cons d rest).trans hlater
  | true =>
      obtain rfl : d = '/' := eq_slash_of_opens hopens hd
      rcases hrest with heq | ⟨before, hname⟩
      · rw [(List.cons.inj heq).2]
        exact DeepLeaves.all
      · exact DeepLeaves.behind hname.symm

theorem tells_one {start : Bool} {token : Token} (hone : token.isOne = true)
    (ih : ∀ name, (matchTokens caseSensitive tokens name).Tells caseSensitive token.opens tokens
      name) (name : List Char) :
    (matchTokens caseSensitive (token :: tokens) name).Tells caseSensitive start (token :: tokens)
      name := by
  cases name with
  | nil =>
      have hexhausted : matchTokens caseSensitive (token :: tokens) [] = .exhausted := by
        cases token with
        | run | deep => cases hone
        | char | any | within | outside => rfl
      rw [hexhausted]
      intro rest hrest hmatch
      obtain ⟨c, behind, rfl, -, -⟩ := (matches_one_iff hone).mp hmatch
      exact absurd hrest.suffix.length_le (by simp)
  | cons c name =>
      have hstep : matchTokens caseSensitive (token :: tokens) (c :: name) =
          if token.admits caseSensitive c then matchTokens caseSensitive tokens name
          else .failed := by
        cases token with
        | run | deep => cases hone
        | char | any | within | outside => rfl
      rw [hstep]
      by_cases hadmits : token.admits caseSensitive c = true
      · rw [if_pos hadmits]
        have htells := ih name
        cases houtcome : matchTokens caseSensitive tokens name with
        | matched =>
            rw [houtcome] at htells
            exact .one hadmits htells
        | failed =>
            rw [houtcome] at htells
            intro hmatch
            obtain ⟨d, rest, heq, -, hrest⟩ := (matches_one_iff hone).mp hmatch
            rw [← (List.cons.inj heq).2] at hrest
            exact htells hrest
        | exhausted =>
            rw [houtcome] at htells
            intro rest hremains hmatch
            obtain ⟨d, behind, rfl, hd, hbehind⟩ := (matches_one_iff hone).mp hmatch
            exact htells behind (hremains.tail hd) hbehind
      · rw [if_neg hadmits]
        intro hmatch
        obtain ⟨d, rest, heq, hd, -⟩ := (matches_one_iff hone).mp hmatch
        rw [← (List.cons.inj heq).1] at hd
        exact hadmits hd

/-- The outcome of a star.  A try that is exhausted tells of all rests that are not longer, and the
longer ones were tried before it. -/
theorem tells_star {start inner : Bool} {token : Token} {Leaves : List Char → List Char → Prop}
    (hmatches : ∀ name, Matches caseSensitive (token :: tokens) name ↔
      ∃ rest, Leaves name rest ∧ Matches caseSensitive tokens rest)
    (htries : IsFirst (Leaves name) (matchTokens caseSensitive tokens) outcome)
    (hcovers : ∀ {rest behind tried}, Remains start name rest → Leaves rest behind →
      Leaves name tried →
      (tried.length < behind.length → Leaves name behind) ∧
        (behind.length ≤ tried.length → Remains inner tried behind))
    (ih : ∀ name, (matchTokens caseSensitive tokens name).Tells caseSensitive inner tokens name) :
    outcome.Tells caseSensitive start (token :: tokens) name := by
  have hfails : ∀ rest, matchTokens caseSensitive tokens rest = .failed →
      ¬Matches caseSensitive tokens rest := by
    intro rest hfailed
    have htells := ih rest
    rwa [hfailed] at htells
  cases outcome with
  | matched =>
      obtain ⟨rest, hleaves, hmatched, -⟩ := htries.2 nofun
      have hrest := ih rest
      rw [hmatched] at hrest
      exact (hmatches name).mpr ⟨rest, hleaves, hrest⟩
  | failed =>
      intro hmatch
      obtain ⟨rest, hleaves, hrest⟩ := (hmatches name).mp hmatch
      exact hfails rest (htries.1 rfl rest hleaves) hrest
  | exhausted =>
      obtain ⟨tried, hleaves, hexhausted, hlonger⟩ := htries.2 nofun
      have htried := ih tried
      rw [hexhausted] at htried
      intro rest hremains hmatch
      obtain ⟨behind, hbehind, hrest⟩ := (hmatches rest).mp hmatch
      obtain ⟨hbefore, hafter⟩ := hcovers hremains hbehind hleaves
      rcases Nat.lt_or_ge tried.length behind.length with hlt | hle
      · exact hfails behind (hlonger behind (hbefore hlt) hlt) hrest
      · exact htried behind (hafter hle) hrest

/-- What the search says of a name is right, by induction on the tokens. -/
theorem tells_matchTokens {start : Bool} (haligned : aligned start tokens = true)
    (name : List Char) :
    (matchTokens caseSensitive tokens name).Tells caseSensitive start tokens name := by
  induction tokens generalizing start name with
  | nil =>
      cases name with
      | nil => exact .nil
      | cons c name => exact fun h => nomatch matches_nil_iff.mp h
  | cons token tokens ih =>
      obtain ⟨hstart, hrest⟩ : (start || token != .deep) = true ∧
          aligned token.opens tokens = true := by
        simpa only [aligned, Bool.and_eq_true] using haligned
      have htells := fun name => ih hrest name
      cases token with
      | run =>
          refine tells_star (fun _ => matches_run_iff)
            (isFirst_run (matchTokens caseSensitive tokens) name) ?_ htells
          intro rest behind tried hremains hbehind htried
          have hsuffix : behind <:+ name := hbehind.suffix.trans hremains.suffix
          exact ⟨fun hlt => htried.of_length_le hsuffix hlt.le,
            fun hle => List.suffix_of_suffix_length_le hsuffix htried.suffix hle⟩
      | deep =>
          obtain rfl : start = true := by simpa using hstart
          refine tells_star (fun _ => matches_deep_iff)
            (isFirst_deep (matchTokens caseSensitive tokens) name) ?_ htells
          intro rest behind tried hremains hbehind htried
          have hleaves : DeepLeaves name behind := DeepLeaves.trans hremains hbehind
          exact ⟨fun _ => hleaves, fun hle => DeepLeaves.of_length_le htried.suffix hleaves hle⟩
      | char | any | within | outside => exact tells_one rfl htells name

/-- The search finds a match if and only if there is one. -/
theorem matchTokens_eq_matched_iff (haligned : aligned true tokens = true) :
    matchTokens caseSensitive tokens name = .matched ↔ Matches caseSensitive tokens name := by
  have htells : (matchTokens caseSensitive tokens name).Tells caseSensitive true tokens name :=
    tells_matchTokens haligned name
  cases houtcome : matchTokens caseSensitive tokens name with
  | matched =>
      rw [houtcome] at htells
      exact iff_of_true rfl htells
  | failed =>
      rw [houtcome] at htells
      exact iff_of_false nofun htells
  | exhausted =>
      rw [houtcome] at htells
      exact iff_of_false nofun (htells name .all)

end ArchivePlan.Glob
