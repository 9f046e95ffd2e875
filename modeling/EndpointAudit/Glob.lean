import EndpointAudit.FileTree

namespace EndpointAudit.Glob

structure CharRange where
  low : Char
  high : Char
deriving DecidableEq, Repr

inductive Token
  | char (c : Char)
  | anyChar
  | anySequence
  | within (ranges : List CharRange)
  | except (ranges : List CharRange)
deriving DecidableEq, Repr

inductive NamePattern
  | tokens (ts : List Token)
  | recursive
deriving DecidableEq, Repr

/-- The ranges between brackets. A dash between two characters makes a range. -/
def rangesOf : List Char → List CharRange
  | a :: '-' :: b :: cs => ⟨a,b⟩ :: rangesOf cs
  | c :: cs => ⟨c,c⟩ :: rangesOf cs
  | [] => []

/-- The characters of a bracket and what follows it. A closing bracket in first place is one of
them. -/
def bracketBody : List Char → Option (List Char × List Char)
  | [] => none
  | c :: cs => (Text.cutFirst (· == ']') cs).map fun (body,rest) => (c :: body,rest)

theorem length_of_cutFirst {p : Char → Bool} {cs before after : List Char}
    (h : Text.cutFirst p cs = some (before,after)) : after.length < cs.length := by
  induction cs generalizing before after with
  | nil => simp [Text.cutFirst] at h
  | cons c cs ih =>
    simp only [Text.cutFirst] at h
    split at h
    · obtain ⟨-,rfl⟩ := Prod.mk.injEq .. ▸ Option.some.inj h
      simp
    · obtain ⟨⟨b,a⟩,hs,he⟩ := Option.map_eq_some_iff.mp h
      have := ih hs
      simp only [Prod.mk.injEq] at he
      simp only [List.length_cons,← he.2]
      omega

theorem length_of_bracketBody {cs body rest : List Char}
    (h : bracketBody cs = some (body,rest)) : rest.length < cs.length := by
  cases cs with
  | nil => simp [bracketBody] at h
  | cons c cs =>
    obtain ⟨⟨b,a⟩,hs,he⟩ := Option.map_eq_some_iff.mp h
    have := length_of_cutFirst hs
    simp only [Prod.mk.injEq] at he
    simp only [List.length_cons,← he.2]
    omega

/-- The tokens of a name without asterisks in a row. There are none if a bracket stays open. -/
def tokensOf? (cs : List Char) : Option (List Token) :=
  match cs with
  | [] => some []
  | '?' :: cs => (tokensOf? cs).map (.anyChar :: ·)
  | '*' :: '*' :: _ => none
  | '*' :: cs => (tokensOf? cs).map (.anySequence :: ·)
  | '[' :: '!' :: cs =>
    match _h : bracketBody cs with
    | none => none
    | some (body,rest) => (tokensOf? rest).map (.except (rangesOf body) :: ·)
  | '[' :: cs =>
    match _h : bracketBody cs with
    | none => none
    | some (body,rest) => (tokensOf? rest).map (.within (rangesOf body) :: ·)
  | c :: cs => (tokensOf? cs).map (.char c :: ·)
termination_by cs.length
decreasing_by
  all_goals first
    | exact Nat.lt_succ_of_lt (length_of_bracketBody _h)
    | exact Nat.lt_succ_of_lt (Nat.lt_succ_of_lt (length_of_bracketBody _h))
    | simp

def namePattern? (name : String) : Option NamePattern :=
  if name = "**" then some .recursive else (tokensOf? name.toList).map .tokens

/-- The patterns of the names of a path, absent if one of them is malformed. -/
def patterns? (pattern : String) : Option (List NamePattern) :=
  ((Path.pieces pattern).filter (· != "")).mapM namePattern?

def CharRange.holds (r : CharRange) (c : Char) : Bool :=
  r.low ≤ c && c ≤ r.high

mutual

def matchesTokens : List Token → List Char → Bool
  | [],cs => cs.isEmpty
  | .anySequence :: ts,cs => matchesAfterAny ts cs
  | .char d :: ts,c :: cs => c == d && matchesTokens ts cs
  | .anyChar :: ts,_ :: cs => matchesTokens ts cs
  | .within rs :: ts,c :: cs => rs.any (·.holds c) && matchesTokens ts cs
  | .except rs :: ts,c :: cs => !rs.any (·.holds c) && matchesTokens ts cs
  | _ :: _,[] => false
termination_by ts cs => (ts.length,cs.length)

/-- Whether the tokens match some end of the characters. -/
def matchesAfterAny (ts : List Token) : List Char → Bool
  | [] => matchesTokens ts []
  | c :: cs => matchesTokens ts (c :: cs) || matchesAfterAny ts cs
termination_by cs => (ts.length,cs.length + 1)

end

def literal? (ts : List Token) : Option (List Char) :=
  ts.mapM fun
    | .char c => some c
    | _ => none

def namesIn (t : FileTree) (path : String) : List String :=
  match t.find path with
  | .ok (loc,.dir) => (t.children loc).map (·.1)
  | _ => []

/-- The directory itself and its parent fit a pattern only if it starts with a dot. -/
def dotNames (ts : List Token) : List String :=
  if ts.head? = some (.char '.') then [".",".."] else []

/-- All paths below a directory, through links too. The fuel bounds how deep they go. -/
def below (t : FileTree) : Nat → String → List String
  | 0,_ => []
  | fuel + 1,path =>
    (namesIn t path).flatMap fun name =>
      let p := Path.join path name
      p :: (if t.isDir p then below t fuel p else [])

def present (t : FileTree) (path : String) : Bool :=
  match t.locate path false with
  | .ok (_,some _) => true
  | _ => false

def nameMatches (ts : List Token) (path : String) : Bool :=
  match Path.fileName? path with
  | some name => matchesTokens ts name.toList
  | none => false

/-- The paths at or below `path` that fit the remaining patterns. Names without wildcards are looked
up, all others are compared with the names in the directory. -/
def expand (t : FileTree) (path : String) : List NamePattern → List String
  | [] => [path]
  | .tokens ts :: rest =>
    match literal? ts with
    | some name =>
      let p := Path.join path (String.ofList name)
      if present t p then expand t p rest else []
    | none =>
      let names := namesIn t path ++ (if t.isDir path then dotNames ts else [])
      names.flatMap fun name =>
        if matchesTokens ts name.toList then expand t (Path.join path name) rest else []
  | [.recursive] => (below t (t.entries.length + FileTree.maxLinks) path).filter (t.isDir ·)
  | .recursive :: .recursive :: rest => expand t path (.recursive :: rest)
  | .recursive :: .tokens ts :: rest =>
    (below t (t.entries.length + FileTree.maxLinks) path).flatMap fun p =>
      if nameMatches ts p then expand t p rest else []

/-- The paths that fit a pattern, in order; absent if the pattern is malformed. -/
def paths? (t : FileTree) (pattern : String) : Option (List String) :=
  (patterns? pattern).map fun ps =>
    let start := if Path.isAbsolute pattern then "/" else ""
    (expand t (if start.isEmpty then "." else start) ps).mergeSort Path.before

end EndpointAudit.Glob
