import ArchivePlan.Proofs.GlobMatching
import ArchivePlan.Proofs.Sources
import ArchivePlan.Selection

/-! # Patterns that stand for a subtree

A declared pattern that ends in a slash or in `/**` stands for what the text before it (its top)
matches, with all that is below (`InSubtree`).  It is compiled into two globs, one for what is below
and one for the top.  The first has `/` and `**` behind the tokens of the top, except that `**` adds
nothing to tokens that end in it already (`Below`).  A name that the first takes is cut at that
slash.  For the converse a name that the top matches has to be matched as well where more follows,
which is clear except for a `**` that took the whole name; but then the last component does in its
place (`exists_component`). -/

namespace ArchivePlan

namespace Glob

variable {caseSensitive : Bool} {top tokens behind compiled : List Token} {name rest : List Char}

/-! ### Compiled patterns -/

/-- Whether a component begins behind tokens that are given in reverse order. -/
def opensBehind : List Token → Bool
  | [] => true
  | token :: _ => token.opens

theorem aligned_reverse_cons (token : Token) (done : List Token) :
    aligned true (token :: done).reverse =
      (aligned true done.reverse && (opensBehind done || token != .deep)) := by
  have hconcat : ∀ (tokens : List Token) (start : Bool), aligned start (tokens ++ [token]) =
      (aligned start tokens && (tokens.getLast?.elim start Token.opens || token != .deep)) := by
    intro tokens
    induction tokens with
    | nil => simp [aligned]
    | cons first tokens ih =>
        intro start
        cases tokens with
        | nil => simp [aligned]
        | cons second tokens =>
            rw [List.cons_append, aligned, ih, aligned.eq_2 start first, List.getLast?_cons_cons,
              Bool.and_assoc]
            cases hlast : (second :: tokens).getLast? with
            | none => simp at hlast
            | some last => rfl
  rw [List.reverse_cons, hconcat, List.getLast?_reverse]
  cases done <;> rfl

theorem aligned_pushDeep {done : List Token} (h : aligned true done.reverse = true)
    (hopens : opensBehind done = true) :
    aligned true (pushDeep done).reverse = true ∧ opensBehind (pushDeep done) = true := by
  unfold pushDeep
  split
  · exact ⟨h, rfl⟩
  · rw [aligned_reverse_cons, h, hopens]
    exact ⟨rfl, rfl⟩

/-- The compiler puts `**` only where a component begins. -/
theorem aligned_of_compileFrom {position : Nat} {done : List Token} {state : State}
    {text : List Char} (h : compileFrom position done state text = .ok compiled)
    (hdone : aligned true done.reverse = true)
    (hopens : ∀ last, state = .between last → opensComponent last = true →
      opensBehind done = true) :
    aligned true compiled = true := by
  fun_induction compileFrom position done state text with
  | case1 => exact Except.ok.inj h ▸ hdone
  | case3 position done last hlast =>
      exact Except.ok.inj h ▸ (aligned_pushDeep hdone (hopens last rfl hlast)).1
  | case4 position done last hlast rest _ ih =>
      obtain ⟨hpush, hbehind⟩ := aligned_pushDeep hdone (hopens last rfl hlast)
      exact ih h hpush fun _ _ _ => hbehind
  | case7 position done last rest _ _ ih =>
      refine ih h (by rw [aligned_reverse_cons, hdone]; simp) ?_
      rintro last ⟨⟩ ⟨⟩
  | case8 position done last rest ih =>
      refine ih h (by rw [aligned_reverse_cons, hdone]; simp) ?_
      rintro last ⟨⟩ ⟨⟩
  | case9 position done last rest ih => exact ih h hdone nofun
  | case10 position done last c rest _ _ _ _ _ ih =>
      refine ih h (by rw [aligned_reverse_cons, hdone]; simp) ?_
      rintro last ⟨⟩ hslash
      exact hslash
  | case12 position done start negated content c rest _ ih => exact ih h hdone nofun
  | case13 position done start negated content c rest _ _ ih =>
      have hset : setToken negated content ≠ .deep := by
        unfold setToken
        split <;> nofun
      refine ih h (by rw [aligned_reverse_cons, hdone]; simpa using .inr hset) ?_
      rintro last ⟨⟩ ⟨⟩
  | case14 position done start negated content c rest _ _ ih => exact ih h hdone nofun
  | case2 | case5 | case6 | case11 => cases h

theorem aligned_of_compile {pattern : List Char} (h : compile pattern = .ok compiled) :
    aligned true compiled = true :=
  aligned_of_compileFrom h rfl fun _ _ _ => rfl

/-- A compiled pattern matches a name if and only if the name is one of those that its tokens stand
for. -/
theorem isMatch_iff {pattern : List Char} (h : compile pattern = .ok compiled) (name : String) :
    isMatch caseSensitive compiled name = true ↔ Matches caseSensitive compiled name.toList := by
  rw [isMatch, beq_iff_eq]
  exact matchTokens_eq_matched_iff (aligned_of_compile h)

/-- How `/**` at the end of a pattern is compiled. -/
inductive Below (top : List Token) : List Token → Prop
  | added : Below top (top ++ [.char '/', .deep])
  | collapsed (hlast : top.getLast? = some .deep) : Below top top
  | doubled (htop : top = [.deep]) : Below top [.deep, .deep]

theorem below_pushDeep {done : List Token} :
    Below (pushDeep done).reverse (pushDeep (pushDeep done)).reverse := by
  cases done with
  | nil => exact .doubled rfl
  | cons first done =>
      have hpush : ∃ second rest, pushDeep (first :: done) = .deep :: second :: rest := by
        unfold pushDeep
        split
        · next second rest heq => exact ⟨second, rest, heq⟩
        · exact ⟨first, done, rfl⟩
      obtain ⟨second, rest, heq⟩ := hpush
      rw [heq]
      exact .collapsed (by simp)

theorem exists_cons_of_append {top text : List Char} {c : Char}
    (h : top ++ ['/', '*', '*'] = c :: text) (hc : c ≠ '/') :
    ∃ later, top = c :: later ∧ later ++ ['/', '*', '*'] = text := by
  cases top with
  | nil => exact absurd (List.cons.inj h).1.symm hc
  | cons d later =>
      obtain ⟨rfl, htext⟩ := List.cons.inj h
      exact ⟨later, rfl, htext⟩

/-- A pattern that ends in `/**` is compiled only if the text before it is. -/
theorem exists_below_of_compileFrom {position : Nat} {done : List Token} {state : State}
    {top : List Char}
    (h : compileFrom position done state (top ++ ['/', '*', '*']) = .ok compiled) :
    ∃ tokens, compileFrom position done state top = .ok tokens ∧ Below tokens compiled := by
  generalize htext : top ++ ['/', '*', '*'] = text at h
  fun_induction compileFrom position done state text generalizing top with
  | case1 => simp at htext
  | case3 => exact absurd (congrArg List.length htext) (by simp)
  | case4 position done last hlast rest _ ih =>
      obtain ⟨single, rfl, hsingle⟩ := exists_cons_of_append htext (by decide)
      obtain ⟨later, rfl, hlater⟩ := exists_cons_of_append hsingle (by decide)
      cases later with
      | nil =>
          -- the slash of `/**` belongs to a `**` before it
          obtain rfl : rest = ['*', '*'] := (List.cons.inj hlater).2.symm
          refine ⟨(pushDeep done).reverse, by simp [compileFrom, hlast], ?_⟩
          have hcompiled : .ok (pushDeep (pushDeep done)).reverse =
              Except.ok (ε := Fault) compiled := by
            simpa [compileFrom, opensComponent] using h
          exact Except.ok.inj hcompiled ▸ below_pushDeep
      | cons c later =>
          obtain ⟨rfl, hrest⟩ := List.cons.inj hlater
          obtain ⟨tokens, htokens, hbelow⟩ := ih hrest h
          exact ⟨tokens, by simpa [compileFrom, hlast] using htokens, hbelow⟩
  | case7 position done last rest _ hstar ih =>
      obtain ⟨later, rfl, hlater⟩ := exists_cons_of_append htext (by decide)
      obtain ⟨tokens, htokens, hbelow⟩ := ih hlater h
      have hstar' : ∀ tail, later = '*' :: tail → False := by
        rintro tail rfl
        exact hstar _ hlater.symm
      refine ⟨tokens, ?_, hbelow⟩
      rw [compileFrom]
      · exact htokens
      · exact fun tail => hstar' ('*' :: tail)
      · exact hstar'
  | case8 position done last rest ih =>
      obtain ⟨later, rfl, hlater⟩ := exists_cons_of_append htext (by decide)
      obtain ⟨tokens, htokens, hbelow⟩ := ih hlater h
      exact ⟨tokens, by rwa [compileFrom], hbelow⟩
  | case9 position done last rest ih =>
      obtain ⟨later, rfl, hlater⟩ := exists_cons_of_append htext (by decide)
      obtain ⟨tokens, htokens, hbelow⟩ := ih hlater h
      exact ⟨tokens, by rwa [compileFrom], hbelow⟩
  | case10 position done last c rest _ _ hstar hany hset ih =>
      cases top with
      | nil =>
          obtain ⟨rfl, rfl⟩ := List.cons.inj htext
          refine ⟨done.reverse, rfl, ?_⟩
          have hcompiled : .ok (done.reverse ++ [.char '/', .deep]) =
              Except.ok (ε := Fault) compiled := by
            simpa [compileFrom, opensComponent, pushDeep] using h
          exact Except.ok.inj hcompiled ▸ .added
      | cons d later =>
          obtain ⟨rfl, hlater⟩ := List.cons.inj htext
          obtain ⟨tokens, htokens, hbelow⟩ := ih hlater h
          refine ⟨tokens, ?_, hbelow⟩
          rw [compileFrom]
          · exact htokens
          · exact fun tail hc _ => hstar hc
          · exact fun tail hc _ => hstar hc
          · exact hstar
          · exact hany
          · exact hset
  | case12 position done start negated content c rest hbang ih =>
      obtain ⟨later, rfl, hlater⟩ := exists_cons_of_append htext (by simp [hbang.1])
      obtain ⟨tokens, htokens, hbelow⟩ := ih hlater h
      exact ⟨tokens, by rwa [compileFrom, if_pos hbang], hbelow⟩
  | case13 position done start negated content c rest hbang hend ih =>
      obtain ⟨later, rfl, hlater⟩ := exists_cons_of_append htext (by simp [hend.1])
      obtain ⟨tokens, htokens, hbelow⟩ := ih hlater h
      exact ⟨tokens, by rwa [compileFrom, if_neg hbang, if_pos hend], hbelow⟩
  | case14 position done start negated content c rest hbang hend ih =>
      cases top with
      | nil =>
          obtain ⟨rfl, rfl⟩ := List.cons.inj htext
          simp [compileFrom] at h
      | cons d later =>
          obtain ⟨rfl, hlater⟩ := List.cons.inj htext
          obtain ⟨tokens, htokens, hbelow⟩ := ih hlater h
          exact ⟨tokens, by rwa [compileFrom, if_neg hbang, if_neg hend], hbelow⟩
  | case2 | case5 | case6 | case11 => cases h

/-! ### Names that go on -/

/-- What a name is from one of its components on. -/
def FromComponent (name rest : List Char) : Prop :=
  rest = name ∨ ∃ before, name = before ++ '/' :: rest

theorem FromComponent.deepLeaves (h : FromComponent name rest) : DeepLeaves name rest := by
  rcases h with rfl | ⟨before, hname⟩
  · exact .all
  · exact .behind hname

theorem FromComponent.append (h : FromComponent name rest) (more : List Char) :
    FromComponent (name ++ more) (rest ++ more) := by
  rcases h with rfl | ⟨before, rfl⟩
  · exact .inl rfl
  · exact .inr ⟨before, by rw [List.append_assoc, List.cons_append]⟩

theorem RunLeaves.append (h : RunLeaves name rest) (more : List Char) :
    RunLeaves (name ++ more) (rest ++ more) := by
  obtain ⟨taken, hplain, rfl⟩ := h
  exact ⟨taken, hplain, List.append_assoc taken rest more⟩

theorem exists_component (name : List Char) : ∃ rest, FromComponent name rest ∧ '/' ∉ rest := by
  induction name with
  | nil => exact ⟨[], .inl rfl, List.not_mem_nil⟩
  | cons c name ih =>
      obtain ⟨rest, rfl | ⟨before, rfl⟩, hplain⟩ := ih
      · by_cases hc : c = '/'
        · exact ⟨rest, .inr ⟨[], by rw [hc]; rfl⟩, hplain⟩
        · refine ⟨c :: rest, .inl rfl, ?_⟩
          rw [List.mem_cons, not_or]
          exact ⟨fun h => hc h.symm, hplain⟩
      · exact ⟨rest, .inr ⟨c :: before, rfl⟩, hplain⟩

theorem matches_deep (name : List Char) : Matches caseSensitive [.deep] name :=
  .deep .nothing .nil

/-- Tokens that stand for the empty name are stars, and so stand for every single component. -/
theorem matches_of_matches_nil (h : Matches caseSensitive tokens []) (htokens : tokens ≠ [])
    (hplain : '/' ∉ name) : Matches caseSensitive tokens name := by
  induction tokens with
  | nil => exact absurd rfl htokens
  | cons token tokens ih =>
      cases h with
      | run hleaves h =>
          obtain rfl := List.suffix_nil.mp hleaves.suffix
          by_cases hlast : tokens = []
          · subst hlast
            exact .run ⟨name, hplain, (List.append_nil name).symm⟩ .nil
          · exact .run ⟨[], List.not_mem_nil, rfl⟩ (ih h hlast)
      | deep hleaves h =>
          obtain rfl := List.suffix_nil.mp hleaves.suffix
          by_cases hlast : tokens = []
          · subst hlast
            exact matches_deep name
          · exact .deep .all (ih h hlast)

/-- `**` before other tokens never has to take the last component. -/
theorem exists_fromComponent (h : Matches caseSensitive (.deep :: tokens) name)
    (htokens : tokens ≠ []) :
    ∃ rest, FromComponent name rest ∧ Matches caseSensitive tokens rest := by
  obtain ⟨rest, hleaves, hrest⟩ := matches_deep_iff.mp h
  cases hleaves with
  | all => exact ⟨_, .inl rfl, hrest⟩
  | behind hname => exact ⟨_, .inr ⟨_, hname⟩, hrest⟩
  | nothing =>
      -- the tokens behind are stars then, and can take the last component themselves
      obtain ⟨last, hlast, hplain⟩ := exists_component name
      exact ⟨last, hlast, matches_of_matches_nil hrest htokens hplain⟩

theorem Matches.extend {front last last' : List Token} {more : List Char}
    (h : Matches caseSensitive (front ++ last) name)
    (hfront : last ≠ [] ∨ front.getLast? ≠ some .deep)
    (hlast : ∀ rest, Matches caseSensitive last rest → Matches caseSensitive last' (rest ++ more)) :
    Matches caseSensitive (front ++ last') (name ++ more) := by
  induction front generalizing name with
  | nil => exact hlast name h
  | cons token front ih =>
      have hfront' : last ≠ [] ∨ front.getLast? ≠ some .deep := by
        refine hfront.imp_right fun hne => ?_
        cases front with
        | nil => exact nofun
        | cons second front => rwa [List.getLast?_cons_cons] at hne
      rw [List.cons_append] at h ⊢
      by_cases hdeep : token = .deep
      · subst hdeep
        have htokens : front ++ last ≠ [] := by
          rintro hnil
          obtain ⟨rfl, rfl⟩ := List.append_eq_nil_iff.mp hnil
          exact hfront.elim (fun hne => hne rfl) (fun hne => hne rfl)
        obtain ⟨rest, hfrom, hrest⟩ := exists_fromComponent h htokens
        exact .deep (hfrom.append more).deepLeaves (ih hrest hfront')
      · cases h with
        | one hadmits h => exact .one hadmits (ih h hfront')
        | run hleaves h => exact .run (hleaves.append more) (ih h hfront')
        | deep => exact absurd rfl hdeep

theorem exists_cut (h : Matches caseSensitive (tokens ++ behind) name) :
    ∃ taken rest, name = taken ++ rest ∧ Matches caseSensitive tokens taken ∧
      Matches caseSensitive behind rest := by
  induction tokens generalizing name with
  | nil => exact ⟨[], name, rfl, .nil, h⟩
  | cons token tokens ih =>
      rw [List.cons_append] at h
      cases h with
      | one hadmits h =>
          obtain ⟨taken, rest, rfl, htaken, hrest⟩ := ih h
          exact ⟨_, rest, rfl, .one hadmits htaken, hrest⟩
      | run hleaves h =>
          obtain ⟨taken, rest, rfl, htaken, hrest⟩ := ih h
          obtain ⟨stretch, hplain, rfl⟩ := hleaves
          exact ⟨stretch ++ taken, rest, (List.append_assoc _ _ _).symm,
            .run ⟨stretch, hplain, rfl⟩ htaken, hrest⟩
      | deep hleaves h =>
          obtain ⟨taken, rest, heq, htaken, hrest⟩ := ih h
          cases hleaves with
          | all => exact ⟨taken, rest, heq, .deep .all htaken, hrest⟩
          | @behind before _ hname =>
              refine ⟨before ++ '/' :: taken, rest, ?_, .deep (.behind rfl) htaken, hrest⟩
              rw [hname, heq, List.append_assoc, List.cons_append]
          | nothing =>
              obtain ⟨rfl, rfl⟩ := List.append_eq_nil_iff.mp heq.symm
              exact ⟨name, [], (List.append_nil name).symm, .deep .nothing htaken, hrest⟩

/-- The globs of a subtree take what its top matches and all that is below. -/
theorem Below.matches_iff (h : Below top compiled) :
    Matches caseSensitive compiled name ∨ Matches caseSensitive top name ↔
      Matches caseSensitive top name ∨
        ∃ root rest, name = root ++ '/' :: rest ∧ Matches caseSensitive top root := by
  constructor
  · rintro (hname | hname)
    · cases h with
      | added =>
          obtain ⟨root, rest, rfl, hroot, hrest⟩ := exists_cut hname
          obtain ⟨c, below, rfl, hadmits, -⟩ := (matches_one_iff rfl).mp hrest
          obtain rfl : c = '/' := eq_slash_of_opens rfl hadmits
          exact .inr ⟨root, below, rfl, hroot⟩
      | collapsed => exact .inl hname
      | doubled htop => exact .inl (htop ▸ matches_deep name)
    · exact .inl hname
  · rintro (hname | ⟨root, rest, rfl, hroot⟩)
    · exact .inr hname
    · by_cases hlast : top.getLast? = some .deep
      · obtain ⟨front, rfl⟩ := List.getLast?_eq_some_iff.mp hlast
        exact .inr (hroot.extend (.inl (by simp)) fun _ _ => matches_deep _)
      · cases h with
        | added =>
            rw [← List.append_nil top] at hroot
            refine .inl (hroot.extend (.inr hlast) fun inner hinner => ?_)
            rw [matches_nil_iff.mp hinner, List.nil_append]
            exact .one (by cases caseSensitive <;> rfl) (matches_deep rest)
        | collapsed hlast' => exact absurd hlast' hlast
        | doubled htop => exact absurd (htop ▸ rfl) hlast

/-! ### Patterns without wildcards -/

/-- A pattern in which every character stands for itself. -/
def IsLiteral (pattern : List Char) : Prop :=
  ∀ c ∈ pattern, c ≠ '*' ∧ c ≠ '?' ∧ c ≠ '['

theorem compileFrom_of_isLiteral {pattern : List Char} (h : IsLiteral pattern) (position : Nat)
    (done : List Token) (last : Option Char) :
    compileFrom position done (.between last) pattern =
      .ok (done.reverse ++ pattern.map .char) := by
  induction pattern generalizing position done last with
  | nil => rw [compileFrom, List.map_nil, List.append_nil]
  | cons c pattern ih =>
      obtain ⟨hstar, hany, hset⟩ := h c List.mem_cons_self
      rw [compileFrom, ih (fun d hd => h d (List.mem_cons_of_mem c hd)), List.reverse_cons,
        List.append_assoc]
      · rfl
      · exact fun tail hc _ => hstar hc
      · exact fun tail hc _ => hstar hc
      · exact hstar
      · exact hany
      · exact hset

theorem matches_literal_iff {pattern : List Char} :
    Matches true (pattern.map .char) name ↔ name = pattern := by
  induction pattern generalizing name with
  | nil => exact matches_nil_iff
  | cons c pattern ih =>
      rw [List.map_cons, matches_one_iff rfl]
      constructor
      · rintro ⟨d, rest, rfl, hadmits, hrest⟩
        rw [ih.mp hrest, show d = c by simpa [Token.admits, sameChar] using hadmits]
      · rintro rfl
        exact ⟨c, pattern, rfl, by simp [Token.admits, sameChar], ih.mpr rfl⟩

/-! ### Names in a subtree -/

/-- A name matches tokens or lies below one that does. -/
def InSubtree (caseSensitive : Bool) (tokens : List Token) (name : String) : Prop :=
  isMatch caseSensitive tokens name = true ∨
    ∃ root below : String, name = root ++ "/" ++ below ∧ isMatch caseSensitive tokens root = true

theorem inSubtree_iff {pattern : List Char} (h : compile pattern = .ok tokens) (name : String) :
    InSubtree caseSensitive tokens name ↔
      Matches caseSensitive tokens name.toList ∨
        ∃ root rest, name.toList = root ++ '/' :: rest ∧ Matches caseSensitive tokens root := by
  refine or_congr (isMatch_iff h name) ⟨?_, ?_⟩
  · rintro ⟨root, below, rfl, hroot⟩
    exact ⟨root.toList, below.toList, by simp, (isMatch_iff h root).mp hroot⟩
  · rintro ⟨root, rest, hname, hroot⟩
    refine ⟨.ofList root, .ofList rest, ?_, (isMatch_iff h _).mpr (by simpa using hroot)⟩
    apply String.toList_injective
    simpa using hname

/-- Without wildcards and with case a subtree is a name with what is below it. -/
theorem inSubtree_literal_iff {pattern : List Char} (hliteral : IsLiteral pattern)
    (h : compile pattern = .ok tokens) (name : String) :
    InSubtree true tokens name ↔
      name = .ofList pattern ∨ ∃ below : String, name = .ofList pattern ++ "/" ++ below := by
  have htokens : .ok (pattern.map .char) = Except.ok (ε := Fault) tokens :=
    (compileFrom_of_isLiteral hliteral 0 [] none).symm.trans h
  obtain rfl := Except.ok.inj htokens
  have hmatch : ∀ root : String, isMatch true (pattern.map .char) root = true ↔
      root = .ofList pattern := by
    intro root
    rw [isMatch_iff h, matches_literal_iff]
    constructor
    · exact fun heq => String.toList_injective (by simpa using heq)
    · rintro rfl
      simp
  simp only [InSubtree, hmatch]
  refine or_congr_right ⟨?_, ?_⟩
  · rintro ⟨root, below, hname, rfl⟩
    exact ⟨below, hname⟩
  · rintro ⟨below, hname⟩
    exact ⟨_, below, hname, rfl⟩

end Glob

namespace Selection

variable {declared : String} {top : List Char} {compiled : List Glob.Token}

theorem top_ne_nil (hform : normalized declared.toList = top ++ ['/', '*', '*']) : top ≠ [] := by
  rintro rfl
  have hhead : ∀ pattern : List Char, pattern.dropWhile (· == '/') ≠ ['/', '*', '*'] := by
    intro pattern heq
    have hfirst := List.head?_dropWhile_not (· == '/') pattern
    rw [heq] at hfirst
    simp at hfirst
  exact hhead _ hform

/-- The globs of a pattern that stands for a subtree: one for its top, one for what is below. -/
structure Subtree (declared : String) (top : List Char) (tokens compiled : List Glob.Token) :
    Prop where
  compile_top : Glob.compile top = .ok tokens
  compile_below : Glob.compile (top ++ ['/', '*', '*']) = .ok compiled
  below : Glob.Below tokens compiled
  globs : compile declared = .ok [compiled, tokens]

theorem exists_subtree (hform : normalized declared.toList = top ++ ['/', '*', '*'])
    (hcompiled : Glob.compile (top ++ ['/', '*', '*']) = .ok compiled) :
    ∃ tokens, Subtree declared top tokens compiled := by
  obtain ⟨tokens, htokens, hbelow⟩ := Glob.exists_below_of_compileFrom hcompiled
  have htop : Glob.compile top = .ok tokens := htokens
  refine ⟨tokens, htop, hcompiled, hbelow, ?_⟩
  have hsubtree : subtreeRoot? (top ++ ['/', '*', '*']) = some top := by
    have hlength : 0 < top.length := List.length_pos_iff.mpr (top_ne_nil hform)
    have hends : ['/', '*', '*'].isSuffixOf (top ++ ['/', '*', '*']) = true :=
      List.isSuffixOf_iff_suffix.mpr (List.suffix_append _ _)
    rw [subtreeRoot?, if_pos ⟨hends, by simpa using hlength⟩]
    simp
  have halternatives : alternatives declared.toList = [top ++ ['/', '*', '*'], top] := by
    rw [alternatives, hform, hsubtree]
    rfl
  rw [compile, halternatives, mapM_eq_ok_iff]
  exact .cons (by rw [hcompiled]; rfl) (.cons (by rw [htop]; rfl) .nil)

theorem compileAll_eq_ok_iff {patterns : List String} {globs : List (List Glob.Token)} :
    compileAll patterns = .ok globs ↔
      ∃ parts, patterns.mapM compile = .ok parts ∧ globs = parts.flatten := by
  unfold compileAll
  cases patterns.mapM compile with
  | error e => simp [Except.map]
  | ok parts => simp [Except.map, eq_comm]

theorem compileAll_insert {before after : List String} {globs own : List (List Glob.Token)}
    (h : compileAll (before ++ after) = .ok globs) (hown : compile declared = .ok own) :
    ∃ globs', compileAll (before ++ declared :: after) = .ok globs' ∧
      ∀ tokens, tokens ∈ globs' ↔ tokens ∈ own ∨ tokens ∈ globs := by
  obtain ⟨parts, hparts, rfl⟩ := compileAll_eq_ok_iff.mp h
  rw [List.mapM_append] at hparts
  obtain ⟨first, hfirst, hparts⟩ := exists_of_bind_eq_ok hparts
  obtain ⟨second, hsecond, hparts⟩ := exists_of_bind_eq_ok hparts
  obtain rfl : first ++ second = parts := Except.ok.inj hparts
  refine ⟨(first ++ own :: second).flatten, compileAll_eq_ok_iff.mpr ⟨_, ?_, rfl⟩, ?_⟩
  · rw [List.mapM_append, List.mapM_cons, hfirst, hown, hsecond]
    rfl
  · intro tokens
    simp only [List.flatten_append, List.flatten_cons, List.mem_append]
    tauto

theorem takes_iff {selection : Selection} {name : String} :
    selection.takes name = true ↔
      (selection.includes = [] ∨
        ∃ tokens ∈ selection.includes, Glob.isMatch selection.caseSensitive tokens name = true) ∧
      ∀ tokens ∈ selection.excludes, ¬Glob.isMatch selection.caseSensitive tokens name = true := by
  simp [takes]

theorem make_eq_ok_iff {collection : Collection} {selection : Selection} :
    make collection = .ok selection ↔
      ∃ includes excludes, compileAll collection.includes = .ok includes ∧
        compileAll collection.excludes = .ok excludes ∧
        selection = ⟨includes, excludes, collection.caseSensitive⟩ := by
  constructor
  · intro h
    obtain ⟨includes, hincludes, h⟩ := exists_of_bind_eq_ok h
    obtain ⟨excludes, hexcludes, h⟩ := exists_of_bind_eq_ok h
    exact ⟨includes, excludes, hincludes, hexcludes, (Except.ok.inj h).symm⟩
  · rintro ⟨includes, excludes, hincludes, hexcludes, rfl⟩
    rw [make, hincludes, hexcludes]
    rfl

theorem Subtree.inSubtree_iff {tokens : List Glob.Token}
    (h : Subtree declared top tokens compiled) {caseSensitive : Bool} {name : String} :
    Glob.InSubtree caseSensitive tokens name ↔
      ∃ glob ∈ [compiled, tokens], Glob.isMatch caseSensitive glob name = true := by
  rw [Glob.inSubtree_iff h.compile_top, ← h.below.matches_iff, ← Glob.isMatch_iff h.compile_below,
    ← Glob.isMatch_iff h.compile_top]
  simp

theorem Subtree.only_include {tokens : List Glob.Token} (h : Subtree declared top tokens compiled)
    {collection : Collection} (hincludes : collection.includes = [declared])
    (hexcludes : collection.excludes = []) :
    ∃ selection, make collection = .ok selection ∧
      ∀ name, selection.takes name = true ↔
        Glob.InSubtree collection.caseSensitive tokens name := by
  have hin : compileAll collection.includes = .ok [compiled, tokens] := by
    rw [hincludes, compileAll_eq_ok_iff]
    exact ⟨[[compiled, tokens]], mapM_eq_ok_iff.mpr (.cons h.globs .nil), rfl⟩
  have hex : compileAll collection.excludes = .ok [] := by
    rw [hexcludes]
    rfl
  refine ⟨_, make_eq_ok_iff.mpr ⟨_, _, hin, hex, rfl⟩, fun name => ?_⟩
  rw [takes_iff, h.inSubtree_iff]
  simp

theorem Subtree.further_exclude {tokens : List Glob.Token}
    (h : Subtree declared top tokens compiled) {collection : Collection}
    {selection : Selection} {before after : List String}
    (hmake : make collection = .ok selection) (hexcludes : collection.excludes = before ++ after) :
    ∃ narrowed,
      make { collection with excludes := before ++ declared :: after } = .ok narrowed ∧
      ∀ name, narrowed.takes name = true ↔
        selection.takes name = true ∧
          ¬Glob.InSubtree collection.caseSensitive tokens name := by
  obtain ⟨includes, excludes, hin, hex, rfl⟩ := make_eq_ok_iff.mp hmake
  rw [hexcludes] at hex
  obtain ⟨narrow, hnarrow, hmem⟩ := compileAll_insert hex h.globs
  refine ⟨_, make_eq_ok_iff.mpr ⟨includes, narrow, hin, hnarrow, rfl⟩, fun name => ?_⟩
  rw [takes_iff, takes_iff, h.inSubtree_iff]
  simp only [hmem, or_imp, forall_and, not_exists, not_and]
  tauto

/-- A pattern that ends in a slash or in `/**` stands for exactly the subtree of what is before it:
as the only include the selection takes the names in it, as the only exclude all others, and beside
other patterns it takes them out of what is selected without it. -/
theorem takes_subtree (hform : normalized declared.toList = top ++ ['/', '*', '*'])
    (hcompiled : Glob.compile (top ++ ['/', '*', '*']) = .ok compiled) :
    ∃ tokens, Glob.compile top = .ok tokens ∧
      (∀ collection : Collection, collection.includes = [declared] → collection.excludes = [] →
        ∃ selection, make collection = .ok selection ∧
          ∀ name, selection.takes name = true ↔
            Glob.InSubtree collection.caseSensitive tokens name) ∧
      (∀ collection : Collection, collection.includes = [] → collection.excludes = [declared] →
        ∃ selection, make collection = .ok selection ∧
          ∀ name, selection.takes name = true ↔
            ¬Glob.InSubtree collection.caseSensitive tokens name) ∧
      (∀ (collection : Collection) (selection : Selection) (before after : List String),
        make collection = .ok selection → collection.excludes = before ++ after →
        ∃ narrowed, make { collection with excludes := before ++ declared :: after } = .ok narrowed ∧
          ∀ name, narrowed.takes name = true ↔
            selection.takes name = true ∧
              ¬Glob.InSubtree collection.caseSensitive tokens name) ∧
      (Glob.IsLiteral top → ∀ name, Glob.InSubtree true tokens name ↔
        name = .ofList top ∨ ∃ below : String, name = .ofList top ++ "/" ++ below) := by
  obtain ⟨tokens, h⟩ := exists_subtree hform hcompiled
  refine ⟨tokens, h.compile_top, fun collection => h.only_include,
    fun collection hincludes hexcludes => ?_,
    fun collection selection before after => h.further_exclude,
    fun hliteral name => Glob.inSubtree_literal_iff hliteral h.compile_top name⟩
  have hopen : make { collection with excludes := [] } =
      .ok ⟨[], [], collection.caseSensitive⟩ :=
    make_eq_ok_iff.mpr ⟨[], [], by rw [hincludes]; rfl, rfl, rfl⟩
  have hempty : ([] : List String) = [] ++ [] := rfl
  obtain ⟨narrowed, hnarrowed, htakes⟩ := h.further_exclude hopen hempty
  have hcollection : { collection with excludes := [declared] } = collection := by
    rw [← hexcludes]
  refine ⟨narrowed, hcollection ▸ hnarrowed, fun name => ?_⟩
  rw [htakes name, takes_iff]
  simp

/-- A directory that is left out with all that is below it. -/
theorem takes_subtree_lib :
    normalized "/lib\\ext/".toList = "lib/ext".toList ++ ['/', '*', '*'] ∧
      ∃ selection, make { root := "/", excludes := ["/lib\\ext/"] } = .ok selection ∧
        ∀ name, selection.takes name = true ↔
          ¬(name = "lib/ext" ∨ ∃ below : String, name = "lib/ext" ++ "/" ++ below) := by
  have hform : normalized "/lib\\ext/".toList = "lib/ext".toList ++ ['/', '*', '*'] := rfl
  have hcompiled : Glob.compile ("lib/ext".toList ++ ['/', '*', '*']) =
      .ok ("lib/ext/".toList.map .char ++ [.deep]) := rfl
  have hplain : Glob.IsLiteral "lib/ext".toList := by simp [Glob.IsLiteral]
  obtain ⟨tokens, -, -, hexclude, -, hliteral⟩ := takes_subtree hform hcompiled
  obtain ⟨selection, hselection, htakes⟩ :=
    hexclude { root := "/", excludes := ["/lib\\ext/"] } rfl rfl
  refine ⟨hform, selection, hselection, fun name => ?_⟩
  rw [htakes name, hliteral hplain name, String.ofList_toList]

end Selection

end ArchivePlan
