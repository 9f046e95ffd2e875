import EndpointAudit.Proofs.Expressions
import EndpointAudit.Proofs.PlainValues
import EndpointAudit.Proofs.Replies

namespace EndpointAudit

namespace Completion

open Text Expression

def isLanguageBlank (c : Char) : Bool :=
  c == ' ' || c == '\t'

def languagePart : Part :=
  ⟨.greedy,isAsciiLetter⟩

def blankPart : Part :=
  ⟨.greedy,isLanguageBlank⟩

def perhapsPart (c : Char) : Part :=
  ⟨.optional,(· == c)⟩

def bodyPart : Part :=
  ⟨.lazy,fun _ => true⟩

/-- The parts of a block: the fence, its language, blanks, a line break, the body and another fence. -/
def blockExpression : List Part :=
  literal fence ++ (languagePart :: blankPart :: perhapsPart '\r' :: perhapsPart '\n' :: bodyPart ::
    literal fence)

/-- The body of the block that the expression finds, which is the part with the number 7. -/
def captured? (cs : List Char) : Option (List Char) :=
  (find blockExpression cs).bind fun taken => taken[7]?

theorem fence_ne_nil : fence ≠ [] :=
  List.cons_ne_nil _ _

theorem notMem_fence_iff {c : Char} : c ∉ fence ↔ c ≠ '\x60' := by
  simp [fence]

theorem letter_free {c : Char} (h : isAsciiLetter c) : c ∉ fence := by
  rw [notMem_fence_iff]
  rintro rfl
  simp [isAsciiLetter] at h

theorem languageBlank_free {c : Char} (h : isLanguageBlank c) : c ∉ fence := by
  rw [notMem_fence_iff]
  rintro rfl
  simp [isLanguageBlank] at h

theorem language_clear : languagePart.Clear fence :=
  ⟨.inr rfl,fun _ => letter_free⟩

theorem blank_clear : blankPart.Clear fence :=
  ⟨.inr rfl,fun _ => languageBlank_free⟩

theorem perhaps_clear {c : Char} (hc : c ∉ fence) : (perhapsPart c).Clear fence :=
  ⟨.inl rfl,fun _ hd => beq_iff_eq.mp hd ▸ hc⟩

theorem perhaps_head? (c : Char) (cs : List Char) :
    ∃ taken, ((perhapsPart c).ways cs).head? = some (taken,dropOne c cs) := by
  cases cs with
  | nil => exact ⟨[],rfl⟩
  | cons d cs =>
    by_cases hd : d = c
    · exact ⟨[d],by simp [perhapsPart,Part.ways,dropOne,hd]⟩
    · exact ⟨[],by simp [perhapsPart,Part.ways,dropOne,hd]⟩

theorem finds_body : Finds fence (bodyPart :: literal fence) := by
  intro cs
  rw [bodyPart,head?_ways_lazy,Option.isSome_map,splitFirst_isSome_iff]

/-- Behind an opening fence the parts take what belongs to it, and then the body. -/
theorem head?_ways_opened (rest : List Char) : ∃ name blanks cr lf,
    (ways (languagePart :: blankPart :: perhapsPart '\r' :: perhapsPart '\n' :: bodyPart ::
      literal fence) rest).head? =
    (splitFirst fence (afterOpening rest)).map fun found =>
      name :: blanks :: cr :: lf :: found.1 :: fence.map fun c => [c] := by
  have hreturn : (perhapsPart '\r').Clear fence := perhaps_clear (by simp [fence])
  have hfeed : (perhapsPart '\n').Clear fence := perhaps_clear (by simp [fence])
  have h₁ := finds_body.cons hfeed fence_ne_nil
  have h₂ := h₁.cons hreturn fence_ne_nil
  have h₃ := h₂.cons blank_clear fence_ne_nil
  obtain ⟨cr,hcr⟩ := perhaps_head? '\r'
    ((rest.dropWhile isAsciiLetter).dropWhile isLanguageBlank)
  obtain ⟨lf,hlf⟩ := perhaps_head? '\n'
    (dropOne '\r' ((rest.dropWhile isAsciiLetter).dropWhile isLanguageBlank))
  refine ⟨rest.takeWhile isAsciiLetter,(rest.dropWhile isAsciiLetter).takeWhile isLanguageBlank,cr,
    lf,?_⟩
  rw [h₃.head?_ways language_clear fence_ne_nil (greedyWays_head? isAsciiLetter rest),
    h₂.head?_ways blank_clear fence_ne_nil (greedyWays_head? isLanguageBlank _),
    h₁.head?_ways hreturn fence_ne_nil hcr,finds_body.head?_ways hfeed fence_ne_nil hlf,bodyPart,
    head?_ways_lazy]
  simp only [Option.map_map]
  rfl

/-- A run at the start of a text that cannot be longer. -/
structure Longest (p : Char → Bool) (run rest : List Char) : Prop where
  each : ∀ c ∈ run, p c
  ends : ∀ c ∈ rest.head?, p c = false

/-- One character, if it is there. -/
inductive OneAtMost (c : Char) : List Char → List Char → Prop
  | there (rest : List Char) : OneAtMost c [c] rest
  | missing {rest : List Char} (none : rest.head? ≠ some c) : OneAtMost c [] rest

/-- Where the text of a block begins behind its opening fence. -/
inductive Opens : List Char → List Char → Prop
  | intro {letters blanks cr lf block : List Char}
    (language : Longest isAsciiLetter letters (blanks ++ (cr ++ (lf ++ block))))
    (space : Longest isLanguageBlank blanks (cr ++ (lf ++ block)))
    (return_ : OneAtMost '\r' cr (lf ++ block)) (feed : OneAtMost '\n' lf block) :
    Opens (letters ++ (blanks ++ (cr ++ (lf ++ block)))) block

theorem Longest.dropWhile_eq {p : Char → Bool} {run rest : List Char} (h : Longest p run rest) :
    (run ++ rest).dropWhile p = rest := by
  rw [List.dropWhile_append_of_pos h.each]
  cases rest with
  | nil => rfl
  | cons c rest => exact List.dropWhile_cons_of_neg (by simpa using h.ends c rfl)

theorem longest_takeWhile (p : Char → Bool) (cs : List Char) :
    Longest p (cs.takeWhile p) (cs.dropWhile p) := by
  refine ⟨fun c hc => List.all_eq_true.mp List.all_takeWhile c hc,fun c hc => ?_⟩
  have hnot := List.head?_dropWhile_not p cs
  rw [Option.mem_def.mp hc] at hnot
  exact hnot

theorem OneAtMost.dropOne_eq {c : Char} {taken rest : List Char} (h : OneAtMost c taken rest) :
    dropOne c (taken ++ rest) = rest := by
  cases h with
  | there rest => simp [dropOne]
  | missing none =>
    cases rest with
    | nil => rfl
    | cons d rest => simp_all [dropOne]

theorem exists_oneAtMost (c : Char) (cs : List Char) :
    ∃ taken, cs = taken ++ dropOne c cs ∧ OneAtMost c taken (dropOne c cs) := by
  cases cs with
  | nil => exact ⟨[],rfl,.missing (by simp [dropOne])⟩
  | cons d cs =>
    by_cases hd : d = c
    · subst hd
      exact ⟨[d],by simp [dropOne],.there _⟩
    · exact ⟨[],by simp [dropOne,hd],.missing (by simp [dropOne,hd])⟩

theorem opens_afterOpening (rest : List Char) : Opens rest (afterOpening rest) := by
  obtain ⟨cr,hcr,return_⟩ := exists_oneAtMost '\r'
    ((rest.dropWhile isAsciiLetter).dropWhile isLanguageBlank)
  obtain ⟨lf,hlf,feed⟩ := exists_oneAtMost '\n'
    (dropOne '\r' ((rest.dropWhile isAsciiLetter).dropWhile isLanguageBlank))
  have hletters := longest_takeWhile isAsciiLetter rest
  have hblanks := longest_takeWhile isLanguageBlank (rest.dropWhile isAsciiLetter)
  have hrest := List.takeWhile_append_dropWhile (p := isAsciiLetter) (l := rest)
  rw [← List.takeWhile_append_dropWhile (p := isLanguageBlank) (l := rest.dropWhile _),hcr,hlf]
    at hletters hrest
  rw [hcr,hlf] at hblanks
  rw [hlf] at return_
  have hopens := Opens.intro hletters hblanks return_ feed
  rw [hrest] at hopens
  exact hopens

theorem Opens.eq_afterOpening {rest block : List Char} (h : Opens rest block) :
    block = afterOpening rest := by
  obtain ⟨language,space,return_,feed⟩ := h
  have hspace := space.dropWhile_eq
  unfold isLanguageBlank at hspace
  simp only [afterOpening,language.dropWhile_eq,hspace,return_.dropOne_eq,feed.dropOne_eq]

theorem OneAtMost.eq_of_mem {c d : Char} {taken rest : List Char} (h : OneAtMost c taken rest)
    (hd : d ∈ taken) : d = c := by
  cases h with
  | there rest => exact List.mem_singleton.mp hd
  | missing none => cases hd

/-- A fence behind an opening fence stands behind all that belongs to the opening. -/
theorem Opens.infix_iff {rest block : List Char} (h : Opens rest block) :
    fence <:+: rest ↔ fence <:+: block := by
  obtain ⟨language,space,return_,feed⟩ := h
  have hreturn : '\r' ∉ fence := by simp [fence]
  have hfeed : '\n' ∉ fence := by simp [fence]
  rw [infix_append_iff fence_ne_nil fun c hc => letter_free (language.each c hc),
    infix_append_iff fence_ne_nil fun c hc => languageBlank_free (space.each c hc),
    infix_append_iff fence_ne_nil fun c hc => return_.eq_of_mem hc ▸ hreturn,
    infix_append_iff fence_ne_nil fun c hc => feed.eq_of_mem hc ▸ hfeed]

/-- The body of the block that the first fence of a text opens. -/
inductive Block (cs : List Char) : List Char → Prop
  | intro {before rest block body after : List Char} (opening : FirstAt fence cs before rest)
    (opens : Opens rest block) (closing : FirstAt fence block body after) : Block cs body

/-- A text without a block: no fence stands behind the first one. -/
def Blockless (cs : List Char) : Prop :=
  ∀ before rest, FirstAt fence cs before rest → ¬ fence <:+: rest

theorem fencedBlock?_of_firstAt {cs before rest : List Char} (h : FirstAt fence cs before rest) :
    fencedBlock? cs = (splitFirst fence (afterOpening rest)).map fun found => found.1 := by
  rw [fencedBlock?,splitFirst_eq_some_iff.mpr h]

theorem fencedBlock?_eq_some_iff {cs body : List Char} :
    fencedBlock? cs = some body ↔ Block cs body := by
  constructor
  · intro h
    cases hopen : splitFirst fence cs with
    | none => simp [fencedBlock?,hopen] at h
    | some found =>
      rw [fencedBlock?_of_firstAt (splitFirst_firstAt hopen)] at h
      obtain ⟨closed,hclose,rfl⟩ := Option.map_eq_some_iff.mp h
      exact .intro (splitFirst_firstAt hopen) (opens_afterOpening _) (splitFirst_firstAt hclose)
  · rintro ⟨opening,opens,closing⟩
    rw [fencedBlock?_of_firstAt opening,← opens.eq_afterOpening,splitFirst_eq_some_iff.mpr closing]
    rfl

theorem fencedBlock?_eq_none_iff {cs : List Char} : fencedBlock? cs = none ↔ Blockless cs := by
  constructor
  · intro h before rest hfirst
    rw [fencedBlock?_of_firstAt hfirst,Option.map_eq_none_iff] at h
    rw [(opens_afterOpening rest).infix_iff,← splitFirst_isSome_iff,h]
    simp
  · intro h
    cases hopen : splitFirst fence cs with
    | none => simp [fencedBlock?,hopen]
    | some found =>
      have hfirst := splitFirst_firstAt hopen
      have hclose := h _ _ hfirst
      rw [(opens_afterOpening _).infix_iff,← splitFirst_isSome_iff] at hclose
      simpa [fencedBlock?_of_firstAt hfirst] using hclose

/-- Any two fences that do not overlap make a block. -/
theorem fencedBlock?_isSome_iff {cs : List Char} :
    (fencedBlock? cs).isSome ↔ ∃ before rest, cs = before ++ fence ++ rest ∧ fence <:+: rest := by
  constructor
  · intro h
    obtain ⟨body,hbody⟩ := Option.isSome_iff_exists.mp h
    obtain ⟨opening,opens,closing⟩ := fencedBlock?_eq_some_iff.mp hbody
    exact ⟨_,_,opening.split,opens.infix_iff.mpr ⟨_,_,closing.split.symm⟩⟩
  · rintro ⟨before,rest,hsplit,hrest⟩
    obtain ⟨found,hfound⟩ := Option.isSome_iff_exists.mp
      (splitFirst_isSome_iff.mpr ⟨before,rest,hsplit.symm⟩)
    have hfirst := splitFirst_firstAt hfound
    refine Option.isSome_iff_ne_none.mpr fun hnone => ?_
    exact fencedBlock?_eq_none_iff.mp hnone _ _ hfirst (hrest.trans (hfirst.suffix hsplit).isInfix)

/-- A part of a text without a block has none. -/
theorem fencedBlock?_inside {cs cs' : List Char} (h : cs <:+: cs') (hnone : fencedBlock? cs' = none) :
    fencedBlock? cs = none := by
  rw [← Option.not_isSome_iff_eq_none,fencedBlock?_isSome_iff] at hnone ⊢
  rintro ⟨before,rest,rfl,hrest⟩
  obtain ⟨lead,trail,rfl⟩ := h
  refine hnone ⟨lead ++ before,rest ++ trail,by simp,hrest.trans ⟨[],trail,by simp⟩⟩

/-- The expression finds the body, although its parts may also match in other ways and at other places. -/
theorem captured?_eq_fencedBlock? (cs : List Char) : captured? cs = fencedBlock? cs := by
  induction cs with
  | nil => rfl
  | cons c cs ih =>
    rw [captured?] at ih ⊢
    rw [find,blockExpression,head?_ways_literal]
    cases hdrop : dropPrefix? fence (c :: cs) with
    | none =>
      have hlater : fencedBlock? (c :: cs) = fencedBlock? cs := by
        rw [fencedBlock?,fencedBlock?,splitFirst_cons_of_none hdrop]
        cases splitFirst fence cs <;> rfl
      rw [hlater,← ih]
      rfl
    | some rest =>
      have hfirst : FirstAt fence (c :: cs) [] rest :=
        ⟨dropPrefix?_eq_some_iff.mp hdrop,fun _ _ _ => Nat.zero_le _⟩
      obtain ⟨name,blanks,cr,lf,hopened⟩ := head?_ways_opened rest
      rw [Option.bind_some,hopened,fencedBlock?_of_firstAt hfirst]
      cases hclose : splitFirst fence (afterOpening rest) with
      | some found => rfl
      | none =>
        have hnone : fencedBlock? (c :: cs) = none := by
          rw [fencedBlock?_of_firstAt hfirst,hclose]
          rfl
        have hlater := fencedBlock?_inside (List.suffix_cons c cs).isInfix hnone
        exact ih.trans hlater

theorem Opens.suffix {rest block : List Char} (h : Opens rest block) : block <:+ rest := by
  obtain ⟨-,-,-,-⟩ := h
  simp only [← List.append_assoc]
  exact List.suffix_append _ _

theorem Block.inside {cs body : List Char} (h : Block cs body) : body <:+: cs := by
  obtain ⟨opening,opens,closing⟩ := h
  have hblock := closing.before_prefix.isInfix
  exact (hblock.trans opens.suffix.isInfix).trans opening.after_suffix.isInfix

theorem Block.unfenced {cs body : List Char} (h : Block cs body) : fencedBlock? body = none := by
  obtain ⟨_,_,closing⟩ := h
  rw [← Option.not_isSome_iff_eq_none,fencedBlock?_isSome_iff]
  rintro ⟨before,rest,hsplit,-⟩
  exact closing.free fence_ne_nil ⟨before,rest,hsplit.symm⟩

theorem payloadChars_payloadChars (cs : List Char) :
    payloadChars (payloadChars cs) = payloadChars cs := by
  have htrimmed {cs : List Char} (h : fencedBlock? cs = none) :
      payloadChars (trimChars cs) = trimChars cs := by
    simp [payloadChars,fencedBlock?_inside (trimChars_inside cs) h,trimChars_trimChars]
  cases hblock : fencedBlock? cs with
  | none => simp [payloadChars.eq_1 cs,hblock,htrimmed hblock]
  | some body =>
    have hbody := (fencedBlock?_eq_some_iff.mp hblock).unfenced
    simp [payloadChars.eq_1 cs,hblock,htrimmed hbody]

/-- What is taken out of a completion is the body of its first block, or the whole of it where there is no
block, without the blanks at both ends. It is a part of the completion, it is what is taken out of itself, and
nothing else of the completion is looked at. -/
theorem payload_fenced (completion : String) :
    (∀ body, captured? completion.toList = some body ↔ Block completion.toList body) ∧
    (captured? completion.toList = none ↔ Blockless completion.toList) ∧
    payload completion = trim (((captured? completion.toList).map String.ofList).getD completion) ∧
    (payload completion).toList <:+: completion.toList ∧
    payload (payload completion) = payload completion ∧
    object? (payload completion) = object? completion ∧
    verdict (payload completion) = verdict completion := by
  have hagain : payload (payload completion) = payload completion := by
    simp [payload,payloadChars_payloadChars]
  have hobject : object? (payload completion) = object? completion := by
    rw [object?,hagain,object?]
  have hverdict : verdict (payload completion) = verdict completion := by
    rw [verdict,hobject,verdict]
  simp only [captured?_eq_fencedBlock?]
  refine ⟨fun body => fencedBlock?_eq_some_iff,fencedBlock?_eq_none_iff,?_,?_,hagain,hobject,hverdict⟩
  · cases hblock : fencedBlock? completion.toList with
    | none => simp [payload,payloadChars,hblock,trim]
    | some body => simp [payload,payloadChars,hblock,trim]
  · rw [payload,String.toList_ofList]
    refine (trimChars_inside _).trans ?_
    cases hblock : fencedBlock? completion.toList with
    | none => simp
    | some body => exact (fencedBlock?_eq_some_iff.mp hblock).inside

/-- Of four backticks in a row the first three are the fence, and the last one begins the body. -/
example : payload "````json\t\rx```" = "`json\t\rx" := by
  decide +kernel

end Completion

end EndpointAudit
