import EndpointAudit.Prompt.Substitution
import Mathlib.Data.List.Infix

namespace EndpointAudit.Prompt

/-- An ASCII letter or underscore with letters, digits and underscores behind it. -/
def Identifier (name : List Char) : Prop :=
  ∃ c cs, name = c :: cs ∧ (c.isAlpha ∨ c = '_') ∧ ∀ d ∈ cs, d.isAlphanum ∨ d = '_'

/-- A placeholder as it stands in a template. -/
def tag (name : List Char) : List Char :=
  '<' :: (name ++ ['>'])

/-- A text in which no placeholder stands. -/
def Untagged (text : List Char) : Prop :=
  ∀ name, Identifier name → ¬ tag name <:+: text

/-- A first literal, and placeholders each with the literal behind it. -/
structure Split where
  first : List Char
  rest : List (List Char × List Char)

namespace Split

/-- What stands in the place of a placeholder: its parameter, or else the placeholder. -/
def value (p : Params) (name : List Char) : List Char :=
  ((p.get? (String.ofList name)).map String.toList).getD (tag name)

/-- The literals with something in the place of each placeholder. -/
def joined (fill : List Char → List Char) (s : Split) : List Char :=
  s.first ++ s.rest.flatMap fun part => fill part.1 ++ part.2

/-- Identifiers, with literals in which no placeholder stands. -/
structure Clean (s : Split) : Prop where
  names : ∀ part ∈ s.rest, Identifier part.1
  first : Untagged s.first
  literals : ∀ part ∈ s.rest, Untagged part.2

/-- A way to split a template. -/
def Of (template : String) (s : Split) : Prop :=
  s.joined tag = template.toList ∧ s.Clean

/-- The parts of a split as the scanner finds them. -/
def toPieces (s : Split) : List Piece :=
  s.first.map .literal ++ s.rest.flatMap fun part => .placeholder part.1 :: part.2.map .literal

def ofPieces : List Piece → Split
  | [] => ⟨[],[]⟩
  | .literal c :: ps => ⟨c :: (ofPieces ps).first,(ofPieces ps).rest⟩
  | .placeholder name :: ps => ⟨[],(name,(ofPieces ps).first) :: (ofPieces ps).rest⟩

variable {first name literal : List Char} {rest : List (List Char × List Char)}

theorem joined_cons (fill : List Char → List Char) :
    joined fill ⟨first,(name,literal) :: rest⟩ = first ++ (fill name ++ joined fill ⟨literal,rest⟩) := by
  simp [joined]

theorem toPieces_cons : toPieces ⟨first,(name,literal) :: rest⟩ =
    first.map .literal ++ .placeholder name :: toPieces ⟨literal,rest⟩ := by
  simp [toPieces]

theorem clean_cons_iff : Clean ⟨first,(name,literal) :: rest⟩ ↔
    Untagged first ∧ Identifier name ∧ Clean ⟨literal,rest⟩ := by
  constructor
  · intro h
    obtain ⟨hname,hnames⟩ := List.forall_mem_cons.mp h.names
    obtain ⟨hliteral,hliterals⟩ := List.forall_mem_cons.mp h.literals
    exact ⟨h.first,hname,hnames,hliteral,hliterals⟩
  · intro ⟨hfirst,hname,hrest⟩
    exact ⟨List.forall_mem_cons.mpr ⟨hname,hrest.names⟩,hfirst,
      List.forall_mem_cons.mpr ⟨hrest.first,hrest.literals⟩⟩

end Split

theorem isNameStart_iff {c : Char} : isNameStart c ↔ c.isAlpha ∨ c = '_' := by
  have halpha : c.isAlpha = (c.isUpper || c.isLower) := rfl
  have hupper : c.isUpper = decide (c.val ≥ 'A'.val ∧ c.val ≤ 'Z'.val) := rfl
  have hlower : c.isLower = (decide (c.val ≥ 'a'.val) && decide (c.val ≤ 'z'.val)) := rfl
  simp [isNameStart,halpha,hupper,hlower,Char.le_def,or_comm]

theorem isNamePart_iff {c : Char} : isNamePart c ↔ c.isAlphanum ∨ c = '_' := by
  simp [isNamePart,isNameStart_iff,Char.isAlphanum,Char.isDigit,Char.le_def,or_right_comm]

theorem placeholder?_tag {name : List Char} (h : Identifier name) (rest : List Char) :
    placeholder? (tag name ++ rest) = some (name,rest) := by
  obtain ⟨c,cs,rfl,hc,hcs⟩ := h
  have hparts : ∀ d ∈ cs, isNamePart d := fun d hd => isNamePart_iff.mpr (hcs d hd)
  have htext : tag (c :: cs) ++ rest = '<' :: c :: (cs ++ '>' :: rest) := by simp [tag]
  have hdrop : (cs ++ '>' :: rest).dropWhile isNamePart = '>' :: rest :=
    List.dropWhile_append_of_pos hparts
  have htake : (cs ++ '>' :: rest).takeWhile isNamePart = cs := by
    rw [List.takeWhile_append_of_pos hparts]
    exact List.append_nil cs
  simp only [htext,placeholder?,isNameStart_iff.mpr hc,↓reduceIte,hdrop,htake]

theorem tag_of_placeholder? {cs name rest : List Char} (h : placeholder? cs = some (name,rest)) :
    Identifier name ∧ cs = tag name ++ rest := by
  unfold placeholder? at h
  split at h
  · rename_i c cs
    split at h
    · rename_i hc
      split at h
      · rename_i after hdrop
        cases h
        refine ⟨⟨c,_,rfl,isNameStart_iff.mp hc,?_⟩,?_⟩
        · intro d hd
          exact isNamePart_iff.mp (List.all_eq_true.mp List.all_takeWhile d hd)
        · have hcs := List.takeWhile_append_dropWhile (p := isNamePart) (l := cs)
          rw [hdrop] at hcs
          simp only [tag,List.cons_append,List.append_assoc,List.nil_append,hcs]
      · cases h
    · cases h
  · cases h

/-- A placeholder is no part of another: an opening bracket stands only at its start. -/
theorem open_notMem_name {name : List Char} (h : Identifier name) : '<' ∉ name ++ ['>'] := by
  obtain ⟨c,cs,rfl,hc,hcs⟩ := h
  have hstart : c ≠ '<' := by
    rintro rfl
    simp at hc
  have hpart : '<' ∉ cs := by
    intro hm
    simpa using hcs _ hm
  simp [hstart.symm,hpart]

theorem pieces_tag {name : List Char} (h : Identifier name) (rest : List Char) :
    pieces (tag name ++ rest) = .placeholder name :: pieces rest := by
  have hp := placeholder?_tag h rest
  simp only [tag,List.cons_append] at hp ⊢
  rw [pieces]
  split
  · rename_i name' rest' h'
    rw [hp] at h'
    cases h'
    rfl
  · rename_i h'
    rw [hp] at h'
    cases h'

/-- A placeholder at the start of a literal and of what follows it stands in the literal alone, since the
text behind a literal is at its end or at the bracket that opens a placeholder. -/
theorem tag_prefix_literal {name literal tail : List Char} (h : Identifier name)
    (hl : literal ≠ []) (ht : tail = [] ∨ ∃ cs, tail = '<' :: cs)
    (hp : tag name <+: literal ++ tail) : tag name <+: literal := by
  rcases ht with rfl | ⟨cs,rfl⟩
  · rwa [List.append_nil] at hp
  · obtain ⟨after,he⟩ := hp
    rcases List.append_eq_append_iff.mp he with ⟨as,hlit,_⟩ | ⟨bs,htag,hafter⟩
    · exact ⟨as,hlit.symm⟩
    · cases bs with
      | nil => exact ⟨[],by simpa using htag⟩
      | cons b bs =>
        obtain ⟨l,literal,rfl⟩ := List.exists_cons_of_ne_nil hl
        have hb : b = '<' := (List.cons.inj hafter).1.symm
        have hname : name ++ ['>'] = literal ++ b :: bs := (List.cons.inj htag).2
        refine absurd ?_ (open_notMem_name h)
        rw [hname,hb]
        exact List.mem_append_right literal List.mem_cons_self

theorem Untagged.tail {c : Char} {text : List Char} (h : Untagged (c :: text)) : Untagged text :=
  fun name hn hi => h name hn (hi.trans (List.suffix_cons c text).isInfix)

theorem pieces_literal {literal tail : List Char} (hl : Untagged literal)
    (ht : tail = [] ∨ ∃ cs, tail = '<' :: cs) :
    pieces (literal ++ tail) = literal.map .literal ++ pieces tail := by
  induction literal with
  | nil => rfl
  | cons c literal ih =>
    rw [List.cons_append,pieces]
    split
    · rename_i name rest h
      obtain ⟨hn,htext⟩ := tag_of_placeholder? h
      have hp := tag_prefix_literal hn (List.cons_ne_nil c literal) ht ⟨rest,htext.symm⟩
      exact absurd hp.isInfix (hl name hn)
    · rw [ih hl.tail]
      rfl

namespace Split

/-- The scanner finds the parts of a clean split. -/
theorem Clean.pieces_joined {s : Split} (h : s.Clean) : pieces (s.joined tag) = s.toPieces := by
  obtain ⟨first,rest⟩ := s
  induction rest generalizing first with
  | nil =>
    have hfirst := pieces_literal h.first (.inl rfl)
    rw [pieces] at hfirst
    exact hfirst
  | cons part rest ih =>
    obtain ⟨name,literal⟩ := part
    obtain ⟨hfirst,hname,hrest⟩ := clean_cons_iff.mp h
    have hopen : ∃ cs, tag name ++ joined tag ⟨literal,rest⟩ = '<' :: cs := ⟨_,rfl⟩
    rw [joined_cons,toPieces_cons,pieces_literal hfirst (.inr hopen),pieces_tag hname,ih _ hrest]

theorem ofPieces_literals (first : List Char) (ps : List Piece) :
    ofPieces (first.map .literal ++ ps) = ⟨first ++ (ofPieces ps).first,(ofPieces ps).rest⟩ := by
  induction first with
  | nil => rfl
  | cons c first ih => rw [List.map_cons,List.cons_append,ofPieces,ih]; rfl

theorem ofPieces_toPieces (s : Split) : ofPieces s.toPieces = s := by
  obtain ⟨first,rest⟩ := s
  induction rest generalizing first with
  | nil =>
    have hfirst := ofPieces_literals first []
    simpa [toPieces,ofPieces] using hfirst
  | cons part rest ih =>
    obtain ⟨name,literal⟩ := part
    simp [toPieces_cons,ofPieces_literals,ofPieces,ih]

theorem joined_ofPieces (cs : List Char) : (ofPieces (pieces cs)).joined tag = cs := by
  fun_induction pieces cs with
  | case1 => rfl
  | case2 c cs name rest h ih =>
    rw [ofPieces,joined_cons,ih,(tag_of_placeholder? h).2]
    rfl
  | case3 c cs h ih => exact congrArg (c :: ·) ih

/-- The literals between the placeholders that the scanner finds have none in them. -/
theorem clean_ofPieces (cs : List Char) : (ofPieces (pieces cs)).Clean := by
  fun_induction pieces cs with
  | case1 => exact ⟨by simp [ofPieces],by simp [Untagged,ofPieces,tag],by simp [ofPieces]⟩
  | case2 c cs name rest h ih =>
    refine clean_cons_iff.mpr ⟨?_,(tag_of_placeholder? h).1,ih⟩
    intro name _ hi
    simp [tag] at hi
  | case3 c cs h ih =>
    refine ⟨ih.names,?_,ih.literals⟩
    intro name hn hi
    rcases List.infix_cons_iff.mp hi with hp | hi
    · have htext : c :: (ofPieces (pieces cs)).first <+: c :: cs :=
        (List.prefix_cons_inj c).mpr ⟨_,joined_ofPieces cs⟩
      obtain ⟨after,ha⟩ := hp.trans htext
      rw [← ha,placeholder?_tag hn] at h
      cases h
    · exact ih.first name hn hi

theorem of_iff {template : String} {s : Split} :
    s.Of template ↔ s = ofPieces (pieces template.toList) := by
  constructor
  · intro ⟨hjoined,hclean⟩
    rw [← hjoined,hclean.pieces_joined,ofPieces_toPieces]
  · intro hs
    rw [hs]
    exact ⟨joined_ofPieces _,clean_ofPieces _⟩

theorem fill_toPieces (p : Params) (s : Split) :
    s.toPieces.flatMap (Piece.fill p) = s.joined (value p) := by
  have hliterals : ∀ cs : List Char, (cs.map Piece.literal).flatMap (Piece.fill p) = cs := by
    intro cs
    induction cs with
    | nil => rfl
    | cons c cs ih => rw [List.map_cons,List.flatMap_cons,ih]; rfl
  have hvalue : ∀ name, Piece.fill p (.placeholder name) = value p name := by
    intro name
    simp only [Piece.fill,value]
    cases p.get? (String.ofList name) <;> rfl
  obtain ⟨first,rest⟩ := s
  induction rest generalizing first with
  | nil => simpa [toPieces,joined] using hliterals first
  | cons part rest ih =>
    obtain ⟨name,literal⟩ := part
    rw [toPieces_cons,joined_cons,List.flatMap_append,List.flatMap_cons,hliterals,hvalue,ih]

end Split

/-- A template splits in exactly one way, and whatever the parameters are, a single pass puts their values
between the literals of that split. Neither a value nor what it forms with the text around it is looked at
again. -/
theorem substitute_singlePass (template : String) :
    ∃ s : Split, s.Of template ∧ (∀ s' : Split, s'.Of template → s' = s) ∧
      ∀ p, substitute template p .singlePass = String.ofList (s.joined (Split.value p)) := by
  refine ⟨Split.ofPieces (pieces template.toList),Split.of_iff.mpr rfl,fun _ => Split.of_iff.mp,?_⟩
  intro p
  have hclean := Split.clean_ofPieces template.toList
  have hpieces := hclean.pieces_joined
  rw [Split.joined_ofPieces] at hpieces
  rw [substitute,fillOnce,hpieces,Split.fill_toPieces,← hpieces]

/-- A placeholder that a value completes stays. -/
example : fillOnce "<A<B>|<A>" ⟨[("A","x"),("B",">")]⟩ = "<A>|x" := by cbv

end EndpointAudit.Prompt
