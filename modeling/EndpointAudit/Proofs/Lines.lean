import EndpointAudit.Proofs.Confinement

namespace EndpointAudit

namespace Text

/-- A text as lines. Each of them ends at a line feed, and only the last one may be without. -/
inductive Lines : List Char → List (List Char) → Prop
  | none : Lines [] []
  | last {line : List Char} (named : line ≠ []) (open_ : '\n' ∉ line) : Lines line [line]
  | ended {line rest : List Char} {lines : List (List Char)} (open_ : '\n' ∉ line)
    (others : Lines rest lines) : Lines (line ++ '\n' :: rest) ((line ++ ['\n']) :: lines)

theorem linesOf_cons {c : Char} (hc : c ≠ '\n') (cs : List Char) :
    linesOf (c :: cs) = (c :: (linesOf cs).headD []) :: (linesOf cs).tail := by
  rw [linesOf.eq_3 c cs hc]
  cases linesOf cs <;> rfl

theorem linesOf_open {line : List Char} (hne : line ≠ []) (ho : '\n' ∉ line) :
    linesOf line = [line] := by
  induction line with
  | nil => exact absurd rfl hne
  | cons c line ih =>
    obtain ⟨hc,ho⟩ := List.ne_and_not_mem_of_not_mem_cons ho
    rw [linesOf_cons (Ne.symm hc)]
    by_cases hl : line = []
    · rw [hl]
      rfl
    · rw [ih hl ho]
      rfl

theorem linesOf_ended {line : List Char} (ho : '\n' ∉ line) (rest : List Char) :
    linesOf (line ++ '\n' :: rest) = (line ++ ['\n']) :: linesOf rest := by
  induction line with
  | nil => rfl
  | cons c line ih =>
    obtain ⟨hc,ho⟩ := List.ne_and_not_mem_of_not_mem_cons ho
    rw [List.cons_append,linesOf_cons (Ne.symm hc),ih ho]
    rfl

theorem Lines.eq_linesOf {cs : List Char} {lines : List (List Char)} (h : Lines cs lines) :
    lines = linesOf cs := by
  induction h with
  | none => rfl
  | last named open_ => exact (linesOf_open named open_).symm
  | ended open_ others ih => rw [linesOf_ended open_,ih]

theorem lines_linesOf (cs : List Char) : Lines cs (linesOf cs) := by
  induction cs with
  | nil => exact .none
  | cons c cs ih =>
    by_cases hc : c = '\n'
    · subst hc
      exact @Lines.ended [] cs _ List.not_mem_nil ih
    · rw [linesOf_cons hc]
      generalize linesOf cs = lines at ih
      cases ih with
      | none => exact .last (by simp) (by simpa using Ne.symm hc)
      | last named open_ =>
        exact .last (by simp) (List.not_mem_cons_of_ne_of_not_mem (Ne.symm hc) open_)
      | ended open_ others =>
        exact .ended (List.not_mem_cons_of_ne_of_not_mem (Ne.symm hc) open_) others

end Text

namespace CodeSpan

open FileTree

variable {t : FileTree} {root path text : String}

/-- A number beyond 64 bits with a sign is written as no bound. -/
theorem boundOf_large {n : Nat} (hn : 2 ^ 63 ≤ n) :
    boundOf ("L" ++ toString n).toList = .error (.notAnInteger ("L" ++ toString n)) := by
  have hmax : maxInteger + 1 = 2 ^ 63 := rfl
  have hnumber : natOf? (Nat.toDigits 10 n) = some n :=
    natOf?_eq_some_iff.mpr ⟨Nat.toDigits_ne_nil,isDigit_of_mem_toDigits,
      Nat.ofDigitChars_toDigits (by decide) (by decide)⟩
  rw [boundOf,trimChars_bound]
  simp only [integerOf?_digits isDigit_of_mem_toDigits,hnumber,Option.bind_some]
  rw [if_neg (by omega),String.ofList_toList]

theorem boundOf_small {n : Nat} (hn : n < 2 ^ 63) : boundOf ("L" ++ toString n).toList = .ok n :=
  boundOf_eq_ok_iff.mpr
    ⟨(bound_unsigned_iff (notMem_bound (by decide) (by decide) n)).mp (bound_toString n),hn⟩

/-- What is written as a span is taken apart where it was put together. -/
theorem ofChars_toText {s : CodeSpan} (hp : s.path ≠ "") :
    ofChars s.toText.toList = (do
      let start ← boundOf ("L" ++ toString s.start).toList
      let stop ← boundOf ("L" ++ toString s.stop).toList
      if stop < start then .error .reversed else .ok ⟨s.path,start,stop⟩) := by
  have hcolon := notMem_bound (c := ':') (by decide) (by decide)
  have hdash := notMem_bound (c := '-') (by decide) (by decide)
  generalize hfirst : "L" ++ toString s.start = first
  generalize hlast : "L" ++ toString s.stop = last
  have hcut : Text.cutLast (· == ':') s.toText.toList =
      some (s.path.toList,first.toList ++ '-' :: last.toList) := by
    refine Text.cutLast_eq_some_iff.mpr ⟨?_,?_⟩
    · simp [toText,← hfirst,← hlast]
    · simp only [List.mem_append,List.mem_cons,not_or]
      exact ⟨hfirst ▸ hcolon _,by decide,hlast ▸ hcolon _⟩
  have hsplit : Text.cutFirst (· == '-') (first.toList ++ '-' :: last.toList) =
      some (first.toList,last.toList) :=
    Text.cutFirst_eq_some_iff.mpr ⟨rfl,hfirst ▸ hdash _⟩
  have hpath : s.path.toList.isEmpty = false := by simpa using hp
  simp only [ofChars,hcut,hsplit,hpath,Bool.false_eq_true,↓reduceIte,String.ofList_toList]

/-- What is wrong with such a range is its first bound that is too large. -/
theorem extract_large (hpath : path ≠ "") {a b : Nat} (hb : 2 ^ 63 ≤ b) :
    extract t root (toText ⟨path,a,b⟩) = .error (.spanFormat (toText ⟨path,a,b⟩)
      (Fault.notAnInteger ("L" ++ toString (if 2 ^ 63 ≤ a then a else b))).reason) := by
  have hchars : ofChars (toText ⟨path,a,b⟩).toList =
      .error (.notAnInteger ("L" ++ toString (if 2 ^ 63 ≤ a then a else b))) := by
    rw [ofChars_toText hpath]
    by_cases ha : 2 ^ 63 ≤ a
    · simp only [boundOf_large ha,if_pos ha]
      rfl
    · simp only [boundOf_small (Nat.lt_of_not_le ha),boundOf_large hb,if_neg ha]
      rfl
  unfold extract parse
  rw [hchars]
  rfl

theorem extract_toText (hread : t.readText (Path.join root path) = .ok text) (hpath : path ≠ "")
    {a b : Nat} (hab : a ≤ b) (hb : b < 2 ^ 63) :
    extract t root (toText ⟨path,a,b⟩) =
      .ok (String.ofList (((Text.linesOf text.toList).drop a).take (b - a)).flatten) := by
  obtain ⟨bytes,hbytes,hdecoded⟩ := readText_eq_ok_iff.mp hread
  exact extract_eq_ok_iff.mpr ⟨⟨path,a,b⟩,bytes,text,parse_toText hpath hab hb,hbytes,hdecoded,rfl⟩

/-- A text that can be read has exactly one way to be split into lines. A range of lines is those with
the numbers from its start to before its end, as far as there are such lines; adjoining ranges make up
the range over both, and all lines make up the text. A range within 64 bits with a sign is never an
error, and any other one is refused for its form. -/
theorem extract_lines (hread : t.readText (Path.join root path) = .ok text) (hpath : path ≠ "") :
    ∃ lines, Text.Lines text.toList lines ∧ (∀ lines', Text.Lines text.toList lines' → lines' = lines) ∧
      let slice a b := extract t root (toText ⟨path,a,b⟩)
      (∀ a b, a ≤ b → b < 2 ^ 63 → ∃ part : List (List Char),
        slice a b = .ok (String.ofList part.flatten) ∧
        part.length = min b lines.length - min a lines.length ∧
        ∀ i, part[i]? = if a + i < b then lines[a + i]? else none) ∧
      (∀ a b c, a ≤ b → b ≤ c → c < 2 ^ 63 → ∃ first second,
        slice a b = .ok first ∧ slice b c = .ok second ∧ slice a c = .ok (first ++ second)) ∧
      (∀ c, lines.length ≤ c → c < 2 ^ 63 → slice 0 c = .ok text) ∧
      ∀ a b, a ≤ b → 2 ^ 63 ≤ b → slice a b = .error (.spanFormat (toText ⟨path,a,b⟩)
        (Fault.notAnInteger ("L" ++ toString (if 2 ^ 63 ≤ a then a else b))).reason) := by
  refine ⟨_,Text.lines_linesOf text.toList,fun _ h => h.eq_linesOf,?_⟩
  intro slice
  have hslice {a b : Nat} (hab : a ≤ b) (hb : b < 2 ^ 63) : slice a b =
      .ok (String.ofList (((Text.linesOf text.toList).drop a).take (b - a)).flatten) :=
    extract_toText hread hpath hab hb
  generalize hlines : Text.linesOf text.toList = lines at hslice ⊢
  refine ⟨?_,?_,?_,?_⟩
  · intro a b hab hb
    refine ⟨_,hslice hab hb,?_,?_⟩
    · simp only [List.length_take,List.length_drop]
      omega
    · intro i
      have hi : i < b - a ↔ a + i < b := by omega
      simp only [List.getElem?_take,List.getElem?_drop,hi]
  · intro a b c hab hbc hc
    refine ⟨_,_,hslice hab (by omega),hslice hbc hc,?_⟩
    have hdrop : lines.drop b = (lines.drop a).drop (b - a) := by
      rw [List.drop_drop,Nat.add_sub_of_le hab]
    have htake : c - a = b - a + (c - b) := by omega
    rw [hslice (by omega) hc,htake,List.take_add,hdrop,List.flatten_append,String.ofList_append]
  · intro c hlength hc
    rw [hslice (Nat.zero_le c) hc,List.drop_zero,Nat.sub_zero,List.take_of_length_le hlength,
      ← hlines,Text.linesOf_flatten,String.ofList_toList]
  · intro a b _ hb
    exact extract_large hpath hb

/-- A project of one file: a line that ends with a carriage return and a line feed, a blank one, and one
without an end in which a carriage return stands. -/
def pageTree : FileTree where
  entries := [(["p"],.dir),(["p","A.java"],.file "a\r\n\n\rb".toUTF8 false)]
  cwd := []

theorem pageTree_read : pageTree.readText (Path.join "p" "A.java") = .ok "a\r\n\n\rb" := by
  have hspot : (pageTree.locate (Path.join "p" "A.java")).toOption.map Prod.fst =
      some ["p","A.java"] := by decide
  exact readText_eq_ok_iff.mpr ⟨_,read_of_location hspot rfl,dif_pos (String.isValidUTF8 _)⟩

theorem extract_lines_page :
    pageTree.readText (Path.join "p" "A.java") = .ok "a\r\n\n\rb" ∧ "A.java" ≠ "" ∧
      extract pageTree "p" "A.java:L0-L3" = .ok "a\r\n\n\rb" ∧
      ∃ first second, extract pageTree "p" "A.java:L0-L1" = .ok first ∧
        extract pageTree "p" "A.java:L1-L3" = .ok second ∧ "a\r\n\n\rb" = first ++ second := by
  obtain ⟨lines,_,hunique,_,hadjoin,hall,_⟩ := extract_lines pageTree_read (by decide)
  obtain rfl := hunique _ (Text.lines_linesOf _)
  have hlength : (Text.linesOf "a\r\n\n\rb".toList).length ≤ 3 := by decide
  have hwhole := hall 3 hlength (by omega)
  obtain ⟨first,second,hfirst,hsecond,hboth⟩ := hadjoin 0 1 3 (by omega) (by omega) (by omega)
  exact ⟨pageTree_read,by decide,hwhole,first,second,hfirst,hsecond,
    Except.ok.inj (hwhole.symm.trans hboth)⟩

/-- A range that ends beyond the numbers of 64 bits with a sign is an error, although all lines of the
file stand in it. -/
theorem extract_beyond_integers :
    pageTree.readText (Path.join "p" "A.java") = .ok "a\r\n\n\rb" ∧
      (Text.linesOf "a\r\n\n\rb".toList).length ≤ 9223372036854775808 ∧
      extract pageTree "p" "A.java:L0-L9223372036854775808" =
        .error (.spanFormat "A.java:L0-L9223372036854775808"
          "bound 'L9223372036854775808' is not an integer") := by
  have hpath : "A.java" ≠ "" := by decide
  have htext : toText ⟨"A.java",0,2 ^ 63⟩ = "A.java:L0-L9223372036854775808" := by decide
  refine ⟨pageTree_read,by decide,?_⟩
  rw [← htext,extract_large hpath (Nat.le_refl _)]
  rfl

end CodeSpan

end EndpointAudit
