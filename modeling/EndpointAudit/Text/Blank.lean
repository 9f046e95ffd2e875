namespace EndpointAudit.Text

/-- The characters with the Unicode property White_Space. The zero width space and the byte order
mark do not have it. -/
def isBlank (c : Char) : Bool :=
  let n := c.toNat
  (9 ≤ n && n ≤ 13) || n == 0x20 || n == 0x85 || n == 0xA0 || n == 0x1680 ||
    (0x2000 ≤ n && n ≤ 0x200A) || n == 0x2028 || n == 0x2029 || n == 0x202F || n == 0x205F ||
    n == 0x3000

def dropBlankEnd (cs : List Char) : List Char :=
  (cs.reverse.dropWhile isBlank).reverse

def trimChars (cs : List Char) : List Char :=
  dropBlankEnd (cs.dropWhile isBlank)

def trim (s : String) : String :=
  String.ofList (trimChars s.toList)

def isBlankText (s : String) : Bool :=
  s.toList.all isBlank

theorem dropBlankEnd_append (cs : List Char) :
    ∃ blanks, cs = dropBlankEnd cs ++ blanks ∧ ∀ c ∈ blanks, isBlank c := by
  refine ⟨(cs.reverse.takeWhile isBlank).reverse,?_,?_⟩
  · rw [dropBlankEnd,← List.reverse_append,List.takeWhile_append_dropWhile,List.reverse_reverse]
  · intro c hc
    exact List.all_eq_true.mp (List.all_takeWhile (p := isBlank)) c (List.mem_reverse.mp hc)

def words (s : String) : List String :=
  ((s.toList.splitOnP isBlank).filter fun w => !w.isEmpty).map String.ofList

/-- Lines with their terminators: each piece but the last ends with a line feed, and no piece is
empty. A carriage return is part of its line. -/
def linesOf : List Char → List (List Char)
  | [] => []
  | '\n' :: cs => ['\n'] :: linesOf cs
  | c :: cs =>
    match linesOf cs with
    | [] => [[c]]
    | line :: rest => (c :: line) :: rest

@[simp] theorem linesOf_flatten (cs : List Char) : (linesOf cs).flatten = cs := by
  induction cs using linesOf.induct <;> simp_all [linesOf]

end EndpointAudit.Text
